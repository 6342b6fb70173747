import Kaya.Phase3.FrameContents
import Kaya.Phase3.MutexRuns

open Exec Prog

namespace Kaya

open Code

/-! Where a process is in `uProcInit` and in `vmMemHandler`. -/

/-- The entry of the swap pool for a page of `kUseg2`. -/
def pageEntry (ID page : Word) : Swap := ⟨ID, page, 2, .uProc_pte ID page⟩

/-- What a transfer between a page of the RAM and disk 0 is for. -/
inductive Job where
  /-- The loader stores a block of the tape. -/
  | store (k : Nat)
  /-- The pager writes back what a frame holds, to bring a page into it. -/
  | evict (a : Word) (i : Nat) (x : Swap)
  | fetch (a : Word) (i : Nat)

inductive Stage where
  | lock
  | seek
  | transfer
  | unlock

/-- What a process does next: `k` counts the blocks of its tape from 0, `a` is the
address that it misses and `i` the frame for it. At `rest` a process executes its own
instructions, or none yet. -/
inductive Point where
  | rest
  | boot
  | tape (k : Nat)
  | disk (j : Job) (stage : Stage)
  | check (k : Nat)
  | finish
  | fault (a : Word)
  | next (a : Word)
  | advance (a : Word) (i : Nat)
  | victim (a : Word) (i : Nat)
  | entry (a : Word) (i : Nat) (x : Swap)
  | unmap (a : Word) (i : Nat) (x : Swap) (w : Word)
  | swapIn (a : Word) (i : Nat)
  | map (a : Word) (i : Nat)
  | release

namespace Job

def cylinder : Job → Word
  | store k => BitVec.ofNat 32 k
  | evict _ _ x => x.sw_pgNum
  | fetch a _ => pageOf a

def command (S : Setup) (ID : Word) : Job → Command
  | store _ => storeCommand ID
  | evict _ i x => blockCommand DISK0 DISK0 (x.sw_asid - 1) DISK_WRITEBLK (swapAddress S i)
  | fetch _ i => blockCommand DISK0 DISK0 (ID - 1) DISK_READBLK (swapAddress S i)

/-- What comes after the transfer. -/
def after : Job → Point
  | store k => .check k
  | evict a i _ => .disk (.fetch a i) .lock
  | fetch a i => .swapIn a i

end Job

/-- From one point to the next by an operation and its answer, when the devices are
ready. -/
inductive Moves (S : Setup) (ID : Word) : Point → (o : Op) → o.Answer → Point → Prop where
  | boot : Moves S ID .boot (.passeren (.mutexArray (tapeNumber ID))) () (.tape 0)
  | tape {k : Nat} : Moves S ID (.tape k) (.waitio (tapeCommand ID)) READY (.disk (.store k) .lock)
  | lock {j : Job} : Moves S ID (.disk j .lock) (.passeren (.mutexArray DISK0)) () (.disk j .seek)
  | seek {j : Job} :
      Moves S ID (.disk j .seek) (.waitio (seekCommand DISK0 j.cylinder)) READY (.disk j .transfer)
  | transfer {j : Job} :
      Moves S ID (.disk j .transfer) (.waitio (j.command S ID)) READY (.disk j .unlock)
  | unlock {j : Job} : Moves S ID (.disk j .unlock) (.verhogen (.mutexArray DISK0)) () j.after
  | check {k : Nat} {w : Word} : Moves S ID (.check k) (.getData1 (tapeNumber ID)) w
      (if w = TAPE_EOB then .tape (k + 1) else .finish)
  | finish : Moves S ID .finish (.verhogen (.mutexArray (tapeNumber ID))) () .rest
  | fault {a : Word} : Moves S ID (.fault a) (.passeren .swap) () (.next a)
  | next {a : Word} {n : Nat} :
      Moves S ID (.next a) .getNext n (.advance a ((n + 1) % S.SWAPSIZE))
  | advance {a : Word} {i : Nat} : Moves S ID (.advance a i) (.setNext i) () (.victim a i)
  | victim {a : Word} {i : Nat} {x : Swap} : Moves S ID (.victim a i) (.getSwap i) x
      (if x.sw_asid ≠ -1 then .entry a i x else .disk (.fetch a i) .lock)
  | entry {a : Word} {i : Nat} {x : Swap} {w : Word} :
      Moves S ID (.entry a i x) (.getEntryLO x.sw_pte) w (.unmap a i x w)
  | unmap {a : Word} {i : Nat} {x : Swap} {w : Word} :
      Moves S ID (.unmap a i x w) (.setEntryLO x.sw_pte (w &&& nVALID)) ()
        (.disk (.evict a i x) .lock)
  | swapIn {a : Word} {i : Nat} : Moves S ID (.swapIn a i)
      (.setSwap i (pageEntry ID (pageOf a))) () (.map a i)
  | map {a : Word} {i : Nat} : Moves S ID (.map a i)
      (.setEntryLO (.uProc_pte ID (pageOf a)) (swapAddress S i ||| VALID ||| DIRTY)) () .release
  | release : Moves S ID .release (.verhogen .swap) () .rest

namespace Point

/-- The mutexes that a process has taken, the last one first. -/
def held (ID : Word) : Point → List Sem
  | rest => []
  | boot => []
  | tape _ => [.mutexArray (tapeNumber ID)]
  | disk (.store _) .lock => [.mutexArray (tapeNumber ID)]
  | disk (.store _) _ => [.mutexArray DISK0, .mutexArray (tapeNumber ID)]
  | check _ => [.mutexArray (tapeNumber ID)]
  | finish => [.mutexArray (tapeNumber ID)]
  | fault _ => []
  | disk _ .lock => [.swap]
  | disk _ _ => [.mutexArray DISK0, .swap]
  | _ => [.swap]

/-- The mutex that a process may still wait for. -/
def awaited (ID : Word) : Point → Option Sem
  | tape _ => some (.mutexArray (tapeNumber ID))
  | disk _ .seek => some (.mutexArray DISK0)
  | next _ => some .swap
  | _ => none

end Point

/-- A device is there, and ready after every command. -/
def DevicesReady : (o : Op) → o.Answer → Prop
  | .waitio c, r => r = READY ∧ c.device.toNat < DEVPERINT
  | _, _ => True

/-- Code goes from point to point; a loop may also come to the end of its step bound. -/
def pointContract (S : Setup) (ID : Word) : Prog.Contract Op Op.Answer Point where
  pre g o := o = .spin ∨ ∃ r g', Moves S ID g o r g'
  post := Moves S ID

variable {S : Setup} {ID : Word} {α : Type} {g g' : Point} {o : Op} {r : o.Answer} {k n : Nat}
  {j : Job}

/-- The code leads from `g` to `g'`. -/
abbrev Leads (S : Setup) (ID : Word) (g : Point) (p : Code α) (g' : Point) : Prop :=
  p.Meets (pointContract S ID) g fun g₁ _ => g₁ = g'

theorem leads_perform (h : Moves S ID g o r g') (hdet : ∀ r' g₁, Moves S ID g o r' g₁ → g₁ = g') :
    Leads S ID g (Prog.perform o) g' :=
  ⟨.inr ⟨r, g', h⟩, hdet⟩

theorem Leads.bind {γ : Type} {p : Code α} {f : α → Code γ} {x : Point} (h : Leads S ID g p x)
    (hf : ∀ a, Leads S ID x (f a) g') : Leads S ID g (p >>= f) g' :=
  Prog.Meets.bind h fun _ a heq => heq ▸ hf a

/-- A device answers that it is ready. -/
theorem meets_waitio {c : Command} {x : Point} (h : Moves S ID g (.waitio c) READY x)
    (hdet : ∀ r' g₁, Moves S ID g (.waitio c) r' g₁ → g₁ = x ∧ r' = READY) :
    (waitio c).Meets (pointContract S ID) g fun g₁ w => g₁ = x ∧ w = READY :=
  ⟨.inr ⟨READY, x, h⟩, hdet⟩

/-- What `readWriteBacking` and `loadBlock` do once disk 0 is to be taken. -/
theorem meets_disk {p : Code α} {Q : Point → α → Prop}
    (h : p.Meets (pointContract S ID) (.disk j .unlock) Q) :
    (do
      passeren (.mutexArray DISK0)
      let diskStatus ← waitio (seekCommand DISK0 j.cylinder)
      Prog.when (diskStatus = READY) do
        let _ ← waitio (j.command S ID)
      p).Meets (pointContract S ID) (.disk j .lock) Q := by
  have hlock : Leads S ID (.disk j .lock) (passeren (.mutexArray DISK0)) (.disk j .seek) := by
    refine leads_perform .lock ?_
    intro r' g₁ hmove
    cases hmove
    rfl
  refine Prog.Meets.bind hlock ?_
  rintro _ _ rfl
  refine Prog.Meets.bind (meets_waitio (x := .disk j .transfer) .seek ?_) ?_
  · intro r' g₁ hmove
    cases hmove
    exact ⟨rfl, rfl⟩
  rintro _ status ⟨rfl, hstatus⟩
  have htransfer : Leads S ID (.disk j .transfer) (Prog.when (status = READY) do
      let _ ← waitio (j.command S ID)) (.disk j .unlock) := by
    rw [Prog.when, if_pos hstatus]
    refine Leads.bind (leads_perform .transfer ?_) fun _ => rfl
    intro r' g₁ hmove
    cases hmove
    rfl
  refine Prog.Meets.bind htransfer ?_
  rintro _ _ rfl
  exact h

theorem leads_unlock : Leads S ID (.disk j .unlock) (verhogen (.mutexArray DISK0)) j.after := by
  refine leads_perform .unlock ?_
  intro r' g₁ hmove
  cases hmove
  rfl

theorem leads_readWriteBacking {cylinder sector isRead address : Word}
    (hread : isRead = DISK_WRITEBLK ∨ isRead = DISK_READBLK) (hcylinder : j.cylinder = cylinder)
    (hcommand : j.command S ID = blockCommand DISK0 DISK0 (sector - 1) isRead address) :
    Leads S ID (.disk j .lock) (readWriteBacking cylinder sector DISK0 isRead address) j.after := by
  unfold readWriteBacking
  have hguard : ¬ (isRead ≠ DISK_WRITEBLK ∧ isRead ≠ DISK_READBLK) := fun hneither =>
    hread.elim hneither.1 hneither.2
  rw [Prog.when, if_neg hguard, ← hcylinder, ← hcommand]
  exact meets_disk leads_unlock

theorem meets_loadBlock :
    (loadBlock ID (BitVec.ofNat 32 k)).Meets (pointContract S ID) (.tape k)
      fun g' status => g' = .check k ∧ status = READY := by
  unfold loadBlock
  refine Prog.Meets.bind (meets_waitio (x := .disk (.store k) .lock) .tape ?_) ?_
  · intro r' g₁ hmove
    cases hmove
    exact ⟨rfl, rfl⟩
  rintro _ status ⟨rfl, hstatus⟩
  refine meets_disk (j := .store k) (Prog.Meets.bind leads_unlock ?_)
  rintro _ _ rfl
  exact ⟨rfl, hstatus⟩

/-- The loop stores block after block, up to the last one. -/
theorem leads_loadTape : Leads S ID (.tape k) (loadTape ID n (BitVec.ofNat 32 k)) .finish := by
  induction n generalizing k with
  | zero => exact ⟨.inl rfl, fun r => r.elim⟩
  | succ n ih =>
    unfold loadTape
    refine Prog.Meets.bind meets_loadBlock ?_
    rintro _ status ⟨rfl, hstatus⟩
    refine ⟨.inr ⟨TAPE_EOB, _, .check⟩, fun (data1 : Word) g₁ hmove => ?_⟩
    cases hmove
    change Leads S ID _ (if data1 = TAPE_EOB then _ else _) _
    split
    · rw [show (1 : Word) = BitVec.ofNat 32 1 from rfl, ← BitVec.ofNat_add]
      exact ih
    · rfl

theorem leads_uProcInit : Leads S ID .boot (uProcInit n ID) .rest := by
  unfold uProcInit
  refine Leads.bind (x := .tape 0) (leads_perform .boot ?_) fun _ => ?_
  · intro r' g₁ hmove
    cases hmove
    rfl
  refine Leads.bind leads_loadTape fun _ => leads_perform .finish ?_
  intro r' g₁ hmove
  cases hmove
  rfl

variable {a : Word} {i : Nat}

theorem meets_spinTheBottle (hframes : 0 < S.SWAPSIZE) :
    (spinTheBottle S).Meets (pointContract S ID) (.next a) fun g' i =>
      g' = .victim a i ∧ i < S.SWAPSIZE := by
  refine ⟨.inr ⟨(0 : Nat), _, .next⟩, fun (last : Nat) g₁ hmove => ?_⟩
  cases hmove
  refine ⟨.inr ⟨(), _, .advance⟩, fun _ g₂ hmove => ?_⟩
  cases hmove
  exact ⟨rfl, Nat.mod_lt _ hframes⟩

theorem leads_evict : Leads S ID (.victim a i) (evict S i) (.disk (.fetch a i) .lock) := by
  refine ⟨.inr ⟨(⟨-1, 0, 0, .null⟩ : Swap), _, .victim⟩, fun (frame : Swap) g₁ hmove => ?_⟩
  cases hmove
  change Leads S ID _ (Prog.when (frame.sw_asid ≠ -1) _) _
  rw [Prog.when]
  split
  · refine ⟨.inr ⟨(0 : Word), _, .entry⟩, fun (w : Word) g₂ hmove => ?_⟩
    cases hmove
    refine ⟨.inr ⟨(), _, .unmap⟩, fun _ g₃ hmove => ?_⟩
    cases hmove
    exact leads_readWriteBacking (j := .evict a i frame) (.inl rfl) rfl rfl
  · rfl

theorem leads_validate :
    Leads S ID (.swapIn a i) (validate S ID 2 (pageOf a) i) .release := by
  unfold validate
  rw [if_neg (by decide)]
  refine Leads.bind (x := .map a i) (leads_perform .swapIn ?_) fun _ => leads_perform .map ?_
  all_goals
    intro r' g₁ hmove
    cases hmove
    rfl

theorem leads_vmMemHandler {st : State} (hst : MissingPage st) (hseg : segmentOf st.s_asid = 2) :
    Leads S ID (.fault st.s_asid) (vmMemHandler S st ID) .rest := by
  have hcause : ¬ ((st.s_cause &&& INTCAUSEMASK) >>> 2 ≠ TLBL ∧
      (st.s_cause &&& INTCAUSEMASK) >>> 2 ≠ TLBS) := fun hother => hst.elim hother.1 hother.2
  unfold vmMemHandler pager
  refine Leads.bind (x := .fault st.s_asid) ?_ fun _ => ?_
  · rw [Prog.when, if_neg hcause]
    rfl
  rw [hseg]
  refine Leads.bind (x := .next st.s_asid) (leads_perform .fault ?_) fun _ => ?_
  · intro r' g₁ hmove
    cases hmove
    rfl
  refine Prog.Meets.bind (meets_spinTheBottle S.frames) ?_
  rintro _ i ⟨rfl, hi⟩
  refine Leads.bind leads_evict fun _ => ?_
  refine Leads.bind (leads_readWriteBacking (j := .fetch st.s_asid i) (.inr rfl) rfl rfl)
    fun _ => ?_
  refine Leads.bind leads_validate fun _ => leads_perform .release ?_
  intro r' g₁ hmove
  cases hmove
  rfl

section

variable {s : Sem}

theorem Moves.passeren (h : Moves S ID g o r g') (hkind : opKind S o = .passeren s) :
    g'.held ID = s :: g.held ID ∧ g'.awaited ID = some s ∧ s.isMutex = true := by
  cases h with
  | @lock j =>
    cases hkind
    cases j <;> exact ⟨rfl, rfl, rfl⟩
  | boot | fault =>
    cases hkind
    exact ⟨rfl, rfl, rfl⟩
  | _ => exact absurd hkind (by simp [opKind])

theorem Moves.verhogen (h : Moves S ID g o r g') (hkind : opKind S o = .verhogen s) :
    g.held ID = s :: g'.held ID ∧ s.isMutex = true := by
  cases h with
  | @unlock j =>
    cases hkind
    cases j <;> exact ⟨rfl, rfl⟩
  | finish | release =>
    cases hkind
    exact ⟨rfl, rfl⟩
  | _ => exact absurd hkind (by simp [opKind])

/-- Whatever an operation answers, there is a next point. -/
theorem Moves.answered {r' : o.Answer} (h : Moves S ID g o r g')
    (hready : opKind S o = .other → DevicesReady o r') : ∃ g₁, Moves S ID g o r' g₁ := by
  cases h with
  | tape =>
    obtain ⟨rfl, -⟩ := hready rfl
    exact ⟨_, .tape⟩
  | seek =>
    obtain ⟨rfl, -⟩ := hready rfl
    exact ⟨_, .seek⟩
  | transfer =>
    obtain ⟨rfl, -⟩ := hready rfl
    exact ⟨_, .transfer⟩
  | boot => exact ⟨_, .boot⟩
  | lock => exact ⟨_, .lock⟩
  | unlock => exact ⟨_, .unlock⟩
  | check => exact ⟨_, .check⟩
  | finish => exact ⟨_, .finish⟩
  | fault => exact ⟨_, .fault⟩
  | next => exact ⟨_, .next⟩
  | advance => exact ⟨_, .advance⟩
  | victim => exact ⟨_, .victim⟩
  | entry => exact ⟨_, .entry⟩
  | unmap => exact ⟨_, .unmap⟩
  | swapIn => exact ⟨_, .swapIn⟩
  | map => exact ⟨_, .map⟩
  | release => exact ⟨_, .release⟩

theorem Moves.lasting (h : Moves S ID g o r g') :
    opKind S o ≠ .exit ∧ opKind S o ≠ .halt ∧ o.isAccess = false := by
  cases h <;> simp [opKind, Op.isAccess]

theorem Moves.other (h : Moves S ID g o r g') (hkind : opKind S o = .other) :
    g'.held ID = g.held ID := by
  cases h with
  | tape => rfl
  | @seek j => cases j <;> rfl
  | @transfer j => cases j <;> rfl
  | check | victim => split <;> rfl
  | next | advance | entry | unmap | swapIn | map => rfl
  | _ => exact absurd hkind (by simp [opKind])

end

end Kaya
