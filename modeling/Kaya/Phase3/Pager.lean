import Kaya.Phase3.Backing

open Exec Prog

namespace Kaya

open Code

variable {β : Type} {S : Setup} {ready : Bool} {ID : Word} {s s' : Phase3 β} {st : State} {i : Nat}

namespace Phase3

/-- The frame is in use. -/
def Occupied (s : Phase3 β) (i : Nat) : Prop := (s.swapPool i).sw_asid ≠ -1

instance (s : Phase3 β) (i : Nat) : Decidable (s.Occupied i) := inferInstanceAs (Decidable (_ ≠ _))

/-- The frame that `spinTheBottle` picks next. -/
def nextFrame (S : Setup) (s : Phase3 β) : Nat := (s.next + 1) % S.SWAPSIZE

/-- The page table entry of a page in a frame. -/
def frameEntry (S : Setup) (i : Nat) (a : Word) : Word :=
  if segmentOf a = 3 then swapAddress S i ||| VALID ||| DIRTY ||| GLOBAL
  else swapAddress S i ||| VALID ||| DIRTY

/-- The entry of the swap pool for a page of a process. -/
def swapEntry (ID a : Word) : Swap := ⟨ID, pageOf a, segmentOf a, pteOf ID a⟩

/-- The tables once the page at `a` is in a frame. -/
def validated (S : Setup) (s : Phase3 β) (ID a : Word) (i : Nat) : Phase3 β :=
  ({ s with swapPool := Function.update s.swapPool i (swapEntry ID a) } : Phase3 β).setEntryLO
    (pteOf ID a) (frameEntry S i a)

/-- The page in a frame is no longer mapped. -/
def unmapped (s : Phase3 β) (i : Nat) : Phase3 β := s.setEntryLO (s.swapPool i).sw_pte 0

/-- The same frames and the same entries in all page tables. -/
structure SameTables (s s' : Phase3 β) : Prop where
  swapPool : s'.swapPool = s.swapPool
  kuSeg3 : s'.kuSeg3 = s.kuSeg3
  uProc_pte : s'.uProc_pte = s.uProc_pte
  next : s'.next = s.next

theorem SameTables.refl : s.SameTables s := ⟨rfl, rfl, rfl, rfl⟩

theorem SameTables.trans {s'' : Phase3 β} (h : s.SameTables s') (h' : s'.SameTables s'') :
    s.SameTables s'' :=
  ⟨h'.swapPool.trans h.swapPool, h'.kuSeg3.trans h.kuSeg3, h'.uProc_pte.trans h.uProc_pte,
    h'.next.trans h.next⟩

theorem SameTables.entryLO (h : s.SameTables s') (p : PtePtr) : s'.entryLO p = s.entryLO p := by
  cases p with
  | null => rfl
  | kuSeg3 page => exact congrFun h.kuSeg3 page
  | uProc_pte ID page => exact congrFun (congrFun h.uProc_pte ID) page

theorem entryLO_setEntryLO {p q : PtePtr} {v : Word} (hp : p ≠ .null) :
    (s.setEntryLO p v).entryLO q = if q = p then v else s.entryLO q := by
  cases p with
  | null => exact absurd rfl hp
  | kuSeg3 page => cases q <;> simp [setEntryLO, entryLO, Function.update_apply]
  | uProc_pte ID page =>
    cases q with
    | uProc_pte ID' page' =>
      by_cases hID : ID' = ID
      · subst hID
        simp [setEntryLO, entryLO, Function.update_apply]
      · simp [setEntryLO, entryLO, hID]
    | _ => simp [setEntryLO, entryLO]

@[simp] theorem setEntryLO_swapPool {p : PtePtr} {v : Word} :
    (s.setEntryLO p v).swapPool = s.swapPool := by
  cases p <;> rfl

@[simp] theorem setEntryLO_page {p : PtePtr} {v : Word} : (s.setEntryLO p v).page = s.page := by
  cases p <;> rfl

@[simp] theorem setEntryLO_block {p : PtePtr} {v : Word} : (s.setEntryLO p v).block = s.block := by
  cases p <;> rfl

theorem pteOf_ne_null {a : Word} : pteOf ID a ≠ .null := by
  unfold pteOf
  split <;> nofun

/-- A device changes no table. -/
theorem Done.sameTables {c : Command} (h : s.Done c s') : s.SameTables s' := by
  cases h <;> exact ⟨rfl, rfl, rfl, rfl⟩

end Phase3

open Phase3

/-- The operation changes no table. -/
def KeepsTables (S : Setup) (ready : Bool) (ID : Word) (s : Phase3 β) (o : Op) : Prop :=
  ∀ s₁ r s₂, Alone S ready ID o s₁ r s₂ → s.SameTables s₁ → s.SameTables s₂

theorem keepsTables_semaphore {o : Op} (hkind : opKind S o ≠ .other) :
    KeepsTables S ready ID s o := by
  intro s₁ r s₂ hact hs₁
  rwa [hact.of_semaphore hkind]

theorem keepsTables_waitio {c : Command} : KeepsTables S ready ID s (.waitio c) := by
  intro s₁ r s₂ hact hs₁
  cases hact with
  | semaphore _ => exact hs₁
  | waitio hact _ =>
    cases hact with
    | ready hdone => exact hs₁.trans hdone.sameTables
    | answers _ => exact hs₁
  | other _ hne _ => exact absurd rfl (hne c)

/-- The disk commands of the pager change no table. -/
theorem runs_backing_sameTables {cylinder sector head isRead a : Word}
    (h : RunsAlone S ready ID (readWriteBacking cylinder sector head isRead a) s (some ()) s') :
    s.SameTables s' := by
  have hpanic : (panic : Code Unit).Always (KeepsTables S ready ID s) :=
    ⟨keepsTables_semaphore nofun, fun r => r.elim⟩
  have hP : (passeren (.mutexArray DISK0)).Always (KeepsTables S ready ID s) :=
    always_perform (keepsTables_semaphore nofun)
  have hcode : (readWriteBacking cylinder sector head isRead a).Always (KeepsTables S ready ID s) := by
    unfold readWriteBacking
    refine (always_when fun _ => hpanic).bind fun _ => ?_
    refine hP.bind fun _ => (always_perform keepsTables_waitio).bind fun (status : Word) => ?_
    refine (always_when fun _ => ?_).bind fun _ => always_perform (keepsTables_semaphore nofun)
    exact (always_perform keepsTables_waitio).bind fun _ => trivial
  exact h.keeps (I := s.SameTables) hcode .refl

section

variable {p : PtePtr} {w : Word} {x : Swap} {n : Nat}

theorem alone_getSwap {r : Swap} (h : Alone S ready ID (.getSwap i) s r s') :
    r = s.swapPool i ∧ s' = s := by
  cases h with
  | semaphore hkind => exact absurd rfl hkind
  | other _ _ hact =>
    cases hact
    exact ⟨rfl, rfl⟩

theorem alone_setSwap {r : Unit} (h : Alone S ready ID (.setSwap i x) s r s') :
    s' = { s with swapPool := Function.update s.swapPool i x } := by
  cases h with
  | semaphore hkind => exact absurd rfl hkind
  | other _ _ hact =>
    cases hact
    rfl

theorem alone_getEntryLO {r : Word} (h : Alone S ready ID (.getEntryLO p) s r s') :
    r = s.entryLO p ∧ s' = s := by
  cases h with
  | semaphore hkind => exact absurd rfl hkind
  | other _ _ hact =>
    cases hact
    exact ⟨rfl, rfl⟩

theorem alone_setEntryLO {r : Unit} (h : Alone S ready ID (.setEntryLO p w) s r s') :
    s' = s.setEntryLO p w := by
  cases h with
  | semaphore hkind => exact absurd rfl hkind
  | other _ _ hact =>
    cases hact
    rfl

theorem alone_getNext {r : Nat} (h : Alone S ready ID .getNext s r s') : r = s.next ∧ s' = s := by
  cases h with
  | semaphore hkind => exact absurd rfl hkind
  | other _ _ hact =>
    cases hact
    exact ⟨rfl, rfl⟩

theorem alone_setNext {r : Unit} (h : Alone S ready ID (.setNext n) s r s') :
    s' = { s with next := n } := by
  cases h with
  | semaphore hkind => exact absurd rfl hkind
  | other _ _ hact =>
    cases hact
    rfl

end

theorem runs_spinTheBottle {n : Nat} (h : RunsAlone S ready ID (spinTheBottle S) s (some n) s') :
    n = s.nextFrame S ∧ s' = { s with next := s.nextFrame S } := by
  unfold spinTheBottle at h
  obtain ⟨next, s₁, hget, hrest⟩ := runs_bind_some.mp h
  obtain ⟨rfl, rfl⟩ := alone_getNext (runs_perform.mp hget)
  obtain ⟨_, s₂, hset, hret⟩ := runs_bind_some.mp hrest
  obtain rfl := alone_setNext (runs_perform.mp hset)
  obtain ⟨hn, rfl⟩ := runs_ret.mp hret
  exact ⟨Option.some.inj hn, rfl⟩

/-- A page in the frame loses its entry and goes to the backing store. -/
theorem runs_evict (h : RunsAlone S ready ID (evict S i) s (some ()) s') :
    (¬ s.Occupied i ∧ s' = s) ∨
      (s.Occupied i ∧ RunsAlone S ready ID
        (readWriteBacking (s.swapPool i).sw_pgNum (s.swapPool i).sw_asid DISK0 DISK_WRITEBLK
          (swapAddress S i)) (s.unmapped i) (some ()) s') := by
  unfold evict at h
  obtain ⟨frame, s₁, hget, hrest⟩ := runs_bind_some.mp h
  obtain ⟨rfl, rfl⟩ := alone_getSwap (runs_perform.mp hget)
  rcases runs_when.mp hrest with ⟨hoccupied, hwrite⟩ | ⟨hfree, _, hsame⟩
  · right
    obtain ⟨entry, s₂, hentry, hrest⟩ := runs_bind_some.mp hwrite
    obtain ⟨rfl, rfl⟩ := alone_getEntryLO (runs_perform.mp hentry)
    obtain ⟨_, s₃, hset, hback⟩ := runs_bind_some.mp hrest
    have hs₃ := alone_setEntryLO (runs_perform.mp hset)
    rw [show nVALID = 0#32 from rfl, BitVec.and_zero] at hs₃
    have hunmapped : s₃ = s₂.unmapped i := hs₃
    exact ⟨hoccupied, hunmapped ▸ hback⟩
  · exact .inl ⟨hfree, hsame⟩

theorem runs_validate {a : Word}
    (h : RunsAlone S ready ID (validate S ID (segmentOf a) (pageOf a) i) s (some ()) s') :
    s' = s.validated S ID a i := by
  unfold validate at h
  by_cases hseg : segmentOf a = 3
  · rw [if_pos hseg] at h
    obtain ⟨_, s₁, hswap, hentry⟩ := runs_bind_some.mp h
    obtain rfl := alone_setSwap (runs_perform.mp hswap)
    rw [alone_setEntryLO (runs_perform.mp hentry)]
    rw [validated, swapEntry, pteOf, frameEntry, if_pos hseg, if_pos hseg]
  · rw [if_neg hseg] at h
    obtain ⟨_, s₁, hswap, hentry⟩ := runs_bind_some.mp h
    obtain rfl := alone_setSwap (runs_perform.mp hswap)
    rw [alone_setEntryLO (runs_perform.mp hentry)]
    rw [validated, swapEntry, pteOf, frameEntry, if_neg hseg, if_neg hseg]

/-- The steps of the pager for a page that is not in a frame. -/
theorem runs_vmMemHandler (hst : MissingPage st)
    (h : RunsAlone S ready ID (vmMemHandler S st ID) s (some ()) s') :
    ∃ s₁ s₂, RunsAlone S ready ID (evict S (s.nextFrame S)) { s with next := s.nextFrame S }
        (some ()) s₁ ∧
      RunsAlone S ready ID (readWriteBacking (pageOf st.s_asid) ID DISK0 DISK_READBLK
        (swapAddress S (s.nextFrame S))) s₁ (some ()) s₂ ∧
      s' = s₂.validated S ID st.s_asid (s.nextFrame S) := by
  unfold vmMemHandler at h
  obtain ⟨_, s₀, hcause, hpager⟩ := runs_bind_some.mp h
  have hs₀ : s₀ = s := by
    rcases runs_when.mp hcause with ⟨hother, _⟩ | ⟨_, _, hsame⟩
    · exact absurd hst (not_or.mpr hother)
    · exact hsame
  unfold pager at hpager
  obtain ⟨_, s₁, hP, hbottle⟩ := runs_bind_some.mp hpager
  obtain ⟨newFrame, s₂, hspin, hevict⟩ := runs_bind_some.mp hbottle
  obtain ⟨_, s₃, hevict, hread⟩ := runs_bind_some.mp hevict
  obtain ⟨_, s₄, hread, hvalidate⟩ := runs_bind_some.mp hread
  obtain ⟨_, s₅, hvalidate, hV⟩ := runs_bind_some.mp hvalidate
  have hs₁ : s₁ = s := ((runs_perform.mp hP).of_semaphore nofun).trans hs₀
  obtain ⟨rfl, rfl⟩ := runs_spinTheBottle hspin
  have hs₅ := runs_validate hvalidate
  have hs' : s' = s₅ := (runs_perform.mp hV).of_semaphore nofun
  rw [hs₁] at hevict hread hs₅
  exact ⟨s₃, s₄, hevict, hread, hs'.trans hs₅⟩

/-- Frames of a process are free now; nothing else has changed. -/
structure Released (ID : Word) (s s' : Phase3 β) : Prop where
  frames : ∀ j, s'.swapPool j = s.swapPool j ∨
    ((s.swapPool j).sw_asid = ID ∧ s'.swapPool j = { s.swapPool j with sw_asid := -1 })
  others : s' = { s with swapPool := s'.swapPool }

theorem Phase3.setEntryLO_self {p : PtePtr} : s.setEntryLO p (s.entryLO p) = s := by
  cases p <;> simp [setEntryLO, Phase3.entryLO]

theorem Released.releaseFrame {s₁ s₂ : Phase3 β} {y : Option Unit} (hs₁ : Released ID s s₁)
    (h : RunsAlone S ready ID (releaseFrame ID i) s₁ y s₂) : Released ID s s₂ := by
  unfold Kaya.releaseFrame at h
  obtain ⟨frame, s₃, hget, hrest⟩ := (runs_perform_bind (o := Op.getSwap i) (by nofun)).mp h
  obtain ⟨rfl, rfl⟩ := alone_getSwap hget
  rcases runs_when.mp hrest with ⟨howned, hrelease⟩ | ⟨_, _, rfl⟩
  · obtain ⟨entry, s₄, hentry, hrest⟩ := (runs_perform_bind (o := Op.getEntryLO _) (by nofun)).mp hrelease
    obtain ⟨rfl, rfl⟩ := alone_getEntryLO hentry
    obtain ⟨_, s₅, hset, hrest⟩ := (runs_perform_bind (o := Op.setEntryLO _ _) (by nofun)).mp hrest
    have hs₅ := alone_setEntryLO hset
    rw [show nVALID = 0#32 from rfl, BitVec.or_zero, Phase3.setEntryLO_self] at hs₅
    subst hs₅
    cases hrest with
    | call hact hret =>
      obtain ⟨-, rfl⟩ := runs_ret.mp hret
      have hs₂ := alone_setSwap hact
      refine ⟨fun j => ?_, ?_⟩
      · rw [hs₂]
        by_cases hj : j = i
        · subst hj
          right
          rcases hs₁.frames j with hsame | ⟨hID, hfree⟩
          · rw [hsame] at howned ⊢
            exact ⟨howned, Function.update_self _ _ _⟩
          · rw [hfree] at howned ⊢
            exact ⟨hID, Function.update_self _ _ _⟩
        · simpa [hj] using hs₁.frames j
      · rw [hs₂, hs₁.others]
    | stop hends => exact absurd hends nofun
  · exact hs₁

/-- The end of a process gives its frames back, and leaves all entries as they are. -/
theorem runs_meIRL (h : RunsAlone S ready ID (meIRL S ID) s none s') : Released ID s s' := by
  unfold meIRL at h
  obtain ⟨_, s₁, hP, hrest⟩ := (runs_perform_bind (o := Op.passeren .swap) (by nofun)).mp h
  obtain rfl := hP.of_semaphore nofun
  have hloop : ∀ {y : Option Unit} {s₂ : Phase3 β},
      RunsAlone S ready ID ((List.range S.SWAPSIZE).forM (releaseFrame ID)) s₁ y s₂ →
      Released ID s₁ s₂ := by
    intro y s₂ hloop
    refine hloop.forM_keeps (I := Released ID s₁) (fun i s₃ y s₄ hs₃ hround => ?_)
      ⟨fun j => .inl rfl, rfl⟩
    exact hs₃.releaseFrame hround
  rcases hrest.of_bind with ⟨_, s₂, hframes, hrest⟩ | ⟨_, hframes⟩
  · obtain ⟨_, s₃, hV, hrest'⟩ := (runs_perform_bind (o := Op.verhogen .swap) (by nofun)).mp hrest
    obtain ⟨_, s₄, hV', hexit⟩ := (runs_perform_bind (o := Op.verhogen .masterSem) (by nofun)).mp hrest'
    have hs₄ : s₄ = s₂ := (hV'.of_semaphore nofun).trans (hV.of_semaphore nofun)
    have hend := ((runs_unanswered Empty.elim).mp hexit).2.2.trans hs₄
    exact hend ▸ hloop hframes
  · exact hloop hframes

/-! The pager always comes to an end when the disk is ready. -/

theorem alone_ready {c : Command} (h : s.Done c s') : Alone S ready ID (.waitio c) s READY s' :=
  .waitio (.ready (v := fun _ => 0) h) fun _ => rfl

section

variable (S) (ready) (ID) (s)

theorem exists_readWriteBacking (cylinder sector a : Word) {isRead : Word}
    (hread : isRead = DISK_READBLK ∨ isRead = DISK_WRITEBLK) :
    ∃ s', RunsAlone S ready ID (readWriteBacking cylinder sector DISK0 isRead a) s (some ()) s' := by
  have hseek : s.Done (seekCommand DISK0 cylinder)
      { s with cylinder := ((cylinder <<< 8) ||| DISK_SEEKCYL) >>> 8 } :=
    .seek rfl (command_code _ _ (by decide))
  have hcode : (blockCommand DISK0 DISK0 (sector - 1) isRead a).command &&& 0xFF = isRead := by
    rw [blockCommand, head_zero]
    rcases hread with rfl | rfl
    · exact command_code _ _ (by decide)
    · exact command_code _ _ (by decide)
  have hdone : ∀ s₁ : Phase3 β, ∃ s', s₁.Done (blockCommand DISK0 DISK0 (sector - 1) isRead a) s' := by
    intro s₁
    rcases hread with rfl | rfl
    · exact ⟨_, .read rfl hcode rfl⟩
    · exact ⟨_, .write rfl hcode rfl⟩
  obtain ⟨s', htransfer⟩ := hdone { s with cylinder := ((cylinder <<< 8) ||| DISK_SEEKCYL) >>> 8 }
  refine ⟨s', ?_⟩
  unfold readWriteBacking
  refine Runs.bind (runs_when.mpr (.inr ⟨?_, rfl, rfl⟩)) ?_
  · rintro ⟨hw, hr⟩
    exact hread.elim hr hw
  refine Runs.call (o := Op.passeren (.mutexArray DISK0)) (r := ()) (.semaphore nofun) ?_
  refine Runs.call (o := Op.waitio _) (alone_ready hseek) ?_
  refine Runs.call (o := Op.waitio _) (alone_ready htransfer) ?_
  exact Runs.call (o := Op.verhogen (.mutexArray DISK0)) (r := ()) (.semaphore nofun) .ret

theorem exists_evict (i : Nat) : ∃ s', RunsAlone S ready ID (evict S i) s (some ()) s' := by
  unfold evict
  by_cases hoccupied : s.Occupied i
  · obtain ⟨s', hwrite⟩ := exists_readWriteBacking S ready ID
      (s.setEntryLO (s.swapPool i).sw_pte (s.entryLO (s.swapPool i).sw_pte &&& nVALID))
      (s.swapPool i).sw_pgNum (s.swapPool i).sw_asid (swapAddress S i) (.inr rfl)
    refine ⟨s', ?_⟩
    refine Runs.call (o := Op.getSwap i) (.other (v := fun _ => 0) rfl nofun .getSwap) ?_
    refine runs_when.mpr (.inl ⟨hoccupied, ?_⟩)
    refine Runs.call (o := Op.getEntryLO _) (.other (v := fun _ => 0) rfl nofun .getEntryLO) ?_
    exact Runs.call (o := Op.setEntryLO _ _) (.other (v := fun _ => 0) rfl nofun .setEntryLO) hwrite
  · refine ⟨s, Runs.call (o := Op.getSwap i) (.other (v := fun _ => 0) rfl nofun .getSwap) ?_⟩
    exact runs_when.mpr (.inr ⟨hoccupied, rfl, rfl⟩)

theorem exists_validate (missingASID missingSegment missingPage : Word) (i : Nat) :
    ∃ s', RunsAlone S ready ID (validate S missingASID missingSegment missingPage i) s (some ()) s' := by
  unfold validate
  split
  all_goals exact ⟨_, .call (o := Op.setSwap i _) (.other (v := fun _ => 0) rfl nofun .setSwap)
    (.call (o := Op.setEntryLO _ _) (.other (v := fun _ => 0) rfl nofun .setEntryLO) .ret)⟩

/-- Every page fault can be served. -/
theorem exists_vmMemHandler (hst : MissingPage st) :
    ∃ s', RunsAlone S ready ID (vmMemHandler S st ID) s (some ()) s' := by
  obtain ⟨s₁, hevict⟩ := exists_evict S ready ID { s with next := s.nextFrame S } (s.nextFrame S)
  obtain ⟨s₂, hread⟩ := exists_readWriteBacking S ready ID s₁ (pageOf st.s_asid) ID
    (swapAddress S (s.nextFrame S)) (.inl rfl)
  obtain ⟨s₃, hvalidate⟩ := exists_validate S ready ID s₂ ID (segmentOf st.s_asid) (pageOf st.s_asid)
    (s.nextFrame S)
  refine ⟨s₃, ?_⟩
  have hspin : RunsAlone S ready ID (spinTheBottle S) s (some (s.nextFrame S))
      { s with next := s.nextFrame S } := by
    unfold spinTheBottle
    refine Runs.call (o := Op.getNext) (.other (v := fun _ => 0) rfl nofun .getNext) ?_
    exact Runs.call (o := Op.setNext _) (.other (v := fun _ => 0) rfl nofun .setNext) .ret
  unfold vmMemHandler pager
  refine Runs.bind (runs_when.mpr (.inr ⟨fun hother => hst.elim hother.1 hother.2, rfl, rfl⟩)) ?_
  have hP : RunsAlone S ready ID (passeren .swap) s (some ()) s :=
    .call (r := ()) (.semaphore nofun) .ret
  refine Runs.bind hP (Runs.bind hspin ?_)
  refine Runs.bind hevict (Runs.bind hread (Runs.bind hvalidate ?_))
  exact Runs.call (o := Op.verhogen .swap) (r := ()) (.semaphore nofun) .ret

end

end Kaya
