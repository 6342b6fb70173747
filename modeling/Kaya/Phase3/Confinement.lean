import Kaya.Exec.Abides
import Kaya.Phase3.FrameTables
import Kaya.Phase3.MutexRuns
import Kaya.Phase3.Unmoved

open Exec Prog

namespace Kaya

open Code

variable {β : Type} {S : Setup} {c c' : UserPool β} {ID x a w : Word} {e : Happening Word UserEntry Op}
  {s s' : Phase3 β}

/-- The pages that phase 3 lends to the user processes and their devices: the frames of
the swap pool and the tape buffers. -/
def Lent (S : Setup) (x : Word) : Prop :=
  (∃ i < S.SWAPSIZE, x = swapAddress S i) ∨ ∃ ID, S.IsProcess ID ∧ x = tapeBuffer ID

/-- An entry of a page table that leads nowhere but into the swap pool. -/
def InPool (S : Setup) (entryLO : Word) : Prop :=
  entryLO &&& VALID = VALID → ∃ i < S.SWAPSIZE, frameNumber entryLO = swapAddress S i

/-- A command with which no page is read from a disk or a tape but a page that is lent. -/
def Command.IsConfined (S : Setup) (c : Command) : Prop :=
  ∀ a, c.d_data0 = some a → c.devNum = DISK0 ∨ c.line = BitVec.ofNat 32 TAPEINT → Lent S a

/-- The pointers of a process lead to user space, and a V on a private semaphore that is
none of `uProcs` is out of the question. -/
def Op.IsContained (S : Setup) : Op → Prop
  | storeWord a _ => SEG2 ≤ a ∧ S.vars a = false
  | storeByte a _ => SEG2 ≤ a ∧ S.vars a = false
  | verhogen _ => False
  | _ => True

/-- The user processes, as long as their pointers lead to user space. -/
def containedThreads (β : Type) (S : Setup) : Threads Word Sem UserEntry Op Op.Answer (Phase3 β) :=
  { userThreads S with act := fun ID o x r y => Acts S ID o x r y ∧ o.IsContained S }

/-- The runs from a state in which no process has run and no page is mapped. -/
def containedSystem (β : Type) (S : Setup) : System (UserPool β) (Happening Word UserEntry Op) :=
  (containedThreads β S).system fun c => AtRest c ∧ ∀ p, ¬ c.shared.IsValid p

/-- Entries lead into the pool when they are stored, and so they do when they are loaded;
devices read pages that are lent. -/
def confinedContract (S : Setup) : Contract Op Op.Answer Unit where
  pre _ o :=
    match o with
    | .setEntryLO _ w => InPool S w
    | .waitio c => c.IsConfined S
    | _ => True
  post _ o r _ :=
    match o, r with
    | .getEntryLO _, r => InPool S r
    | _, _ => True

theorem confined_perform {o : Op} (hpre : (confinedContract S).pre () o) :
    Stays (confinedContract S) () (perform o) :=
  ⟨hpre, fun _ _ _ => rfl⟩

theorem inPool_frame {i : Nat} (hi : i < S.SWAPSIZE) (hw : w &&& 0xFFFFF000 = 0#32) :
    InPool S (swapAddress S i ||| w) :=
  fun _ => ⟨i, hi, frameNumber_or swapAddress_low hw⟩

theorem not_valid_nVALID : ¬ (w &&& nVALID) &&& VALID = VALID := by
  rw [show nVALID = 0#32 from rfl, BitVec.and_zero, BitVec.zero_and]
  decide

theorem confined_readWriteBacking {cylinder sector head isRead address : Word}
    (haddress : Lent S address) :
    Stays (confinedContract S) () (readWriteBacking cylinder sector head isRead address) := by
  have hpanic : Stays (confinedContract S) () (panic : Code Unit) := ⟨trivial, fun r => r.elim⟩
  have hseek : (seekCommand DISK0 cylinder).IsConfined S := fun a ha => by cases ha
  have hblock : (blockCommand DISK0 head (sector - 1) isRead address).IsConfined S := by
    intro a ha _
    obtain rfl : address = a := Option.some.inj ha
    exact haddress
  unfold readWriteBacking
  refine (Stays.when fun _ => hpanic).bind fun _ =>
    (confined_perform (o := .passeren _) trivial).bind fun _ => ?_
  refine (confined_perform (o := .waitio _) hseek).bind fun (diskStatus : Word) =>
    Stays.bind (Stays.when fun _ => ?_)
    fun _ => confined_perform (o := .verhogen _) trivial
  exact (confined_perform (o := .waitio _) hblock).bind fun _ => Stays.pure

theorem confined_evict {newFrame : Nat} (hframe : newFrame < S.SWAPSIZE) :
    Stays (confinedContract S) () (evict S newFrame) := by
  unfold evict
  refine (confined_perform (o := .getSwap _) trivial).bind fun (frame : Swap) => Stays.when fun _ => ?_
  refine (confined_perform (o := .getEntryLO _) trivial).bind fun (entry : Word) => ?_
  refine (confined_perform (o := .setEntryLO _ _) ?_).bind fun _ => ?_
  · exact fun hvalid => absurd hvalid not_valid_nVALID
  · exact confined_readWriteBacking (.inl ⟨newFrame, hframe, rfl⟩)

theorem confined_validate {missingASID missingSegment missingPage : Word} {newFrame : Nat}
    (hframe : newFrame < S.SWAPSIZE) :
    Stays (confinedContract S) () (validate S missingASID missingSegment missingPage newFrame) := by
  unfold validate
  split
  · refine (confined_perform (o := .setSwap _ _) trivial).bind fun _ =>
      confined_perform (o := .setEntryLO _ _) ?_
    rw [BitVec.or_assoc, BitVec.or_assoc]
    exact inPool_frame hframe rfl
  · refine (confined_perform (o := .setSwap _ _) trivial).bind fun _ =>
      confined_perform (o := .setEntryLO _ _) ?_
    rw [BitVec.or_assoc]
    exact inPool_frame hframe rfl

/-- The pager maps pages to frames, whatever frame it is given. -/
theorem confined_pager {missingASID missingSegment missingPage : Word} :
    Stays (confinedContract S) () (pager S missingASID missingSegment missingPage) := by
  have hspin : (spinTheBottle S).Meets (confinedContract S) ()
      fun _ newFrame => newFrame < S.SWAPSIZE := by
    unfold spinTheBottle
    exact ⟨trivial, fun next _ _ => ⟨trivial, fun _ _ _ => Nat.mod_lt _ S.frames⟩⟩
  unfold pager
  refine (confined_perform (o := .passeren _) trivial).bind fun _ => Meets.bind hspin ?_
  rintro ⟨⟩ newFrame hframe
  refine (confined_evict hframe).bind fun _ => Stays.bind ?_ fun _ => ?_
  · exact confined_readWriteBacking (.inl ⟨newFrame, hframe, rfl⟩)
  · exact (confined_validate hframe).bind fun _ => confined_perform (o := .verhogen _) trivial

theorem confined_meIRL {Q : Unit → Unit → Prop} : (meIRL S ID).Meets (confinedContract S) () Q := by
  have hrelease : ∀ i, Stays (confinedContract S) () (releaseFrame ID i) := by
    intro i
    unfold releaseFrame
    refine (confined_perform (o := .getSwap _) trivial).bind fun (frame : Swap) =>
      Stays.when fun _ => ?_
    refine ⟨trivial, fun (entry : Word) _ hentry => ⟨?_, fun _ _ _ => ?_⟩⟩
    · change InPool S (entry ||| nVALID)
      rw [show nVALID = 0#32 from rfl, BitVec.or_zero]
      exact hentry
    · exact confined_perform (o := .setSwap _ _) trivial
  have hloop : ∀ l : List Nat, Stays (confinedContract S) () (l.forM (releaseFrame ID)) := by
    intro l
    induction l with
    | nil => exact Stays.pure
    | cons i l ih => exact (hrelease i).bind fun _ => ih
  unfold meIRL
  refine Meets.bind (confined_perform (o := .passeren .swap) trivial) ?_
  rintro _ _ rfl
  refine Meets.bind (hloop _) ?_
  rintro _ _ rfl
  refine Meets.bind (confined_perform (o := .verhogen .swap) trivial) ?_
  rintro _ _ rfl
  exact ⟨trivial, fun _ _ _ => ⟨trivial, fun r => r.elim⟩⟩

theorem confined_plain {o : Op} (ho : o.isPlain = true) : (confinedContract S).pre () o := by
  cases o <;> trivial

theorem unmoved_confined : Unmoved (confinedContract S) () S ID where
  plain _ ho := ⟨confined_plain ho, fun _ _ _ => rfl⟩
  device hID c hc := by
    refine ⟨fun a ha hdevice => ?_, fun _ _ _ => rfl⟩
    obtain hnone | hbuffer | ⟨hdisk, htape⟩ := hc
    · rw [hnone] at ha
      cases ha
    · obtain rfl : tapeBuffer ID = a := Option.some.inj (hbuffer.symm.trans ha)
      exact .inr ⟨ID, hID, rfl⟩
    · exact absurd hdevice (not_or_intro hdisk htape)
  pager _ _ := confined_pager
  ends := confined_meIRL

/-- What holds of the memory and of the page tables: pages that are not lent are as in `m`. -/
structure Confined (S : Setup) (m : Word → β) (s : Phase3 β) : Prop where
  entries : ∀ p, InPool S (s.entryLO p)
  page : ∀ x, ¬ Lent S x → s.page x = m x

section

variable {m : Word → β} {y : β}

/-- A user address that is mapped leads into the swap pool. -/
theorem Confined.pageAt (h : Confined S m s) (hseg : SEG2 ≤ a) (hmapped : s.Mapped ID a) :
    ∃ i < S.SWAPSIZE, s.pageAt ID a = swapAddress S i := by
  obtain ⟨i, hi, hframe⟩ := h.entries (Phase3.pteOf ID a) (hmapped hseg)
  refine ⟨i, hi, ?_⟩
  rw [Phase3.pageAt, if_pos hseg]
  exact hframe

theorem Confined.setPage (h : Confined S m s) (hx : Lent S x) : Confined S m (s.setPage x y) := by
  refine ⟨fun p => ?_, fun z hz => ?_⟩
  · have heq : (s.setPage x y).entryLO p = s.entryLO p := by cases p <;> rfl
    exact heq ▸ h.entries p
  · have hne : z ≠ x := by
      rintro rfl
      exact hz hx
    exact (Function.update_of_ne hne y s.page).trans (h.page z hz)

/-- A store to a user address. -/
theorem Confined.store (h : Confined S m s) (hseg : SEG2 ≤ a) (hmapped : s.Mapped ID a) :
    Confined S m (s.setPage (s.pageAt ID a) y) :=
  h.setPage (.inl (h.pageAt hseg hmapped))

/-- The tables and the pages stay as they are. -/
theorem Confined.congr (h : Confined S m s) (hentry : ∀ p, s'.entryLO p = s.entryLO p)
    (hpage : s'.page = s.page) : Confined S m s' :=
  ⟨fun p => hentry p ▸ h.entries p, fun x hx => (congrFun hpage x).trans (h.page x hx)⟩

theorem Confined.setEntryLO {p : PtePtr} (h : Confined S m s) (hw : InPool S w) :
    Confined S m (s.setEntryLO p w) := by
  by_cases hp : p = .null
  · subst hp
    exact h
  · refine ⟨fun q => ?_, fun x hx => ?_⟩
    · rw [Phase3.entryLO_setEntryLO hp]
      split
      · exact hw
      · exact h.entries q
    · have hpage : (s.setEntryLO p w).page = s.page := by cases p <;> rfl
      exact (congrFun hpage x).trans (h.page x hx)

/-- A command that reads only pages that are lent. -/
theorem Confined.done {cmd : Command} (h : Confined S m s) (hcmd : cmd.IsConfined S)
    (hdone : s.Done cmd s') :
    Confined S m s' := by
  have hsame : ∀ {s' : Phase3 β}, s'.kuSeg3 = s.kuSeg3 → s'.uProc_pte = s.uProc_pte → s'.page = s.page →
      Confined S m s' := by
    intro s' hkuSeg3 hpte hpage
    refine h.congr (fun p => ?_) hpage
    cases p with
    | null => rfl
    | kuSeg3 page => exact congrFun hkuSeg3 page
    | uProc_pte ID page => exact congrFun (congrFun hpte ID) page
  cases hdone with
  | seek _ _ => exact hsame rfl rfl rfl
  | read hdisk _ ha => exact h.setPage (hcmd _ ha (.inl hdisk))
  | write _ _ _ => exact hsame rfl rfl rfl
  | @tape a ID x rest _ hline _ ha _ =>
    have hread : Confined S m (s.setPage a x) := h.setPage (hcmd a ha (.inr hline))
    exact hread.congr (fun p => by cases p <;> rfl) rfl
  | other _ _ => exact h

/-- An operation of the handlers that their contract allows. -/
theorem Confined.acts {o : Op} {r : o.Answer} {v v' : Sem → Int} (h : Confined S m s)
    (hacts : Acts S ID o (v, s) r (v', s')) (hpre : (confinedContract S).pre () o)
    (huser : o.IsContained S) : Confined S m s' := by
  cases hacts with
  | storeWord hmapped _ => exact h.store huser.1 hmapped
  | storeByte hmapped _ => exact h.store huser.1 hmapped
  | clobberWord hvars => exact absurd (hvars.symm.trans huser.2) nofun
  | clobberByte hvars => exact absurd (hvars.symm.trans huser.2) nofun
  | beyond => exact huser.elim
  | setEntryLO => exact h.setEntryLO hpre
  | ready hdone => exact h.done hpre hdone
  | setOld => exact h.congr (fun p => by cases p <;> rfl) rfl
  | setSwap => exact h.congr (fun p => by cases p <;> rfl) rfl
  | setNext => exact h.congr (fun p => by cases p <;> rfl) rfl
  | vInsertBlocked _ => exact h.congr (fun p => by cases p <;> rfl) rfl
  | vRemoveBlocked _ => exact h.congr (fun p => by cases p <;> rfl) rfl
  | insertDelay _ => exact h.congr (fun p => by cases p <;> rfl) rfl
  | removeDelay _ => exact h.congr (fun p => by cases p <;> rfl) rfl
  | _ => exact h

/-- What is entered keeps to the contract. -/
theorem UserEnters.confined {entry : UserEntry} {fs : List (Frame Sem Op Op.Answer)}
    (h : Confined S m s) (henter : UserEnters S ID entry fs s s') :
    (userProgram S ID entry).Meets (confinedContract S) () (fun _ _ => True) ∧ Confined S m s' := by
  have hkeeps : ∀ {p : Code Unit}, Stays (confinedContract S) () p →
      p.Meets (confinedContract S) () fun _ _ => True := fun hp => hp.mono fun _ _ _ => trivial
  cases henter with
  | daemon _ =>
    exact ⟨hkeeps (unmoved_delayDaemon fun _ ho _ => ⟨confined_plain ho, fun _ _ _ => rfl⟩), h⟩
  | boot hID _ =>
    exact ⟨hkeeps (unmoved_confined.uProcInit hID), h.congr (fun p => by cases p <;> rfl) rfl⟩
  | call hmode =>
    exact ⟨hkeeps (unmoved_confined.vmSysHandler hmode.1), h.congr (fun p => by cases p <;> rfl) rfl⟩
  | tlb _ => exact ⟨hkeeps unmoved_confined.vmMemHandler, h⟩
  | program _ => exact ⟨confined_meIRL, h⟩
  | store _ hseg hmapped => exact ⟨trivial, h.store hseg hmapped⟩

/-- One step of a run in which the pointers of the processes lead to user space. -/
theorem Confined.step (habides : Threads.Abides (fun _ => confinedContract S) c)
    (h : Confined S m c.shared) (hstep : (containedThreads β S).Step c e c') :
    Threads.Abides (fun _ => confinedContract S) c' ∧ Confined S m c'.shared := by
  constructor
  · refine habides.step hstep (fun ID entry heq => ?_) (fun ID o r hkind => ?_)
      fun ID o r x _ hkind hact => ?_
    · subst heq
      cases hstep with
      | enter _ henter => exact (UserEnters.confined h henter).1
    · cases o <;> trivial
    · cases o with
      | getEntryLO p =>
        obtain ⟨v', s'⟩ := x
        cases hact.1
        exact h.entries p
      | _ => trivial
  · cases hstep with
    | enter _ henter => exact (UserEnters.confined h henter).2
    | other _ hstack _ hact => exact h.acts hact.1 (habides.pre hstack) hact.2
    | _ => exact h

end

/-- Whatever the user processes do in whatever order: as long as the pointers in their
calls lead to user space, memory that is not lent to them does not change, and every page
that they can access lies in the swap pool. -/
theorem memory_confined {c₀ : UserPool β} {l : List (Happening Word UserEntry Op × UserPool β)}
    (hinit : (containedSystem β S).init c₀) (h : (containedSystem β S).Path c₀ l c) :
    (∀ x, ¬ Lent S x → c.shared.page x = c₀.shared.page x) ∧
      ∀ ID a, SEG2 ≤ a → c.shared.Mapped ID a →
        ∃ i < S.SWAPSIZE, c.shared.pageAt ID a = swapAddress S i := by
  have hstart : Threads.Abides (fun _ => confinedContract S) c₀ ∧
      Confined S c₀.shared.page c₀.shared := by
    refine ⟨fun ID f hf => ?_, fun p hvalid => absurd hvalid (hinit.2 p), fun x _ => rfl⟩
    rw [hinit.1.stack] at hf
    exact absurd hf List.not_mem_nil
  have hrun : ∀ {c c' : UserPool β} {l}, (containedSystem β S).Path c l c' →
      Threads.Abides (fun _ => confinedContract S) c ∧ Confined S c₀.shared.page c.shared →
      Threads.Abides (fun _ => confinedContract S) c' ∧ Confined S c₀.shared.page c'.shared := by
    intro c c' l hpath
    induction hpath with
    | nil => exact id
    | cons hstep _ ih => exact fun hc => ih (Confined.step hc.1 hc.2 hstep)
  obtain ⟨-, hconfined⟩ := hrun h hstart
  exact ⟨hconfined.page, fun ID a hseg hmapped => hconfined.pageAt hseg hmapped⟩

theorem restingPool_init : (containedSystem Unit .small).init restingPool := by
  refine ⟨restingPool_atRest, fun p => ?_⟩
  cases p with
  | null => exact (by decide : ¬ (0 : Word) &&& VALID = VALID)
  | kuSeg3 page => exact (by decide : ¬ (GLOBAL ||| DIRTY) &&& VALID = VALID)
  | uProc_pte ID page => exact (by decide : ¬ DIRTY &&& VALID = VALID)

/-- The first process brings a page in. -/
theorem memory_confined_small :
    ∃ (c₀ c : UserPool Unit) (l : List (Happening Word UserEntry Op × UserPool Unit)),
    (containedSystem Unit .small).init c₀ ∧ (containedSystem Unit .small).Path c₀ l c ∧
      (∀ x, ¬ Lent .small x → c.shared.page x = c₀.shared.page x) ∧ c.shared.Mapped 1 SEG2 ∧
      ∃ i < Setup.small.SWAPSIZE, c.shared.pageAt 1 SEG2 = swapAddress .small i := by
  have h0 := Threads.Solo.start (S := containedThreads Unit .small) (t := 1)
    restingPool_init (fun _ => rfl) (fun _ => rfl) (fun _ => rfl) rfl
  have h1 := h0.enter (e := UserEntry.tlb firstFault) (.tlb (.inl ⟨by decide, rfl, by decide⟩))
  have h2 := h1.passeren () (a := .swap) rfl (by decide)
  have h3 := h2.other _ rfl ⟨.getNext, trivial⟩
  have h4 := h3.other _ rfl ⟨.setNext, trivial⟩
  have h5 := h4.other _ rfl ⟨.getSwap, trivial⟩
  have h6 := h5.passeren () (a := .mutexArray DISK0) rfl (by decide)
  have h7 := h6.other _ rfl ⟨.ready (.seek rfl (by decide)), trivial⟩
  have h8 := h7.other _ rfl ⟨.ready (.read rfl (by decide) rfl), trivial⟩
  have h9 := h8.verhogen () (a := .mutexArray DISK0) rfl (by decide)
  have h10 := h9.other _ rfl ⟨.setSwap, trivial⟩
  obtain ⟨c, hreachable, hstack, -, -, -, hqueue, hdead, hhalted⟩ := h10
  have hrun : c.Running 1 := ⟨hhalted, hdead 1, fun ⟨a, ha⟩ => by simp [hqueue] at ha⟩
  have hact : (containedThreads Unit .small).act 1
      (.setEntryLO (.uProc_pte 1 0) (swapAddress .small 0 ||| VALID ||| DIRTY)) (c.value, c.shared) ()
      (c.value, c.shared.setEntryLO (.uProc_pte 1 0) (swapAddress .small 0 ||| VALID ||| DIRTY)) :=
    ⟨.setEntryLO, trivial⟩
  have hmaps := hreachable.step (.other hrun hstack rfl hact)
  obtain ⟨c₀, l, hinit, hpath⟩ := hmaps.exists_path
  have hmapped : (c.shared.setEntryLO (.uProc_pte 1 0)
      (swapAddress .small 0 ||| VALID ||| DIRTY)).Mapped 1 SEG2 := by
    intro _
    rw [show Phase3.pteOf 1 SEG2 = .uProc_pte 1 0 from by decide,
      Phase3.entryLO_setEntryLO (by simp), if_pos rfl,
      BitVec.or_assoc]
    exact valid_or swapAddress_low rfl
  obtain ⟨hkept, hpages⟩ := memory_confined hinit hpath
  exact ⟨c₀, _, l, hinit, hpath, hkept, hmapped, hpages 1 SEG2 (by decide) hmapped⟩

end Kaya
