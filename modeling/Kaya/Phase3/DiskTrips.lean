import Kaya.Exec.Alone
import Kaya.Phase3.Isolation

open Exec Prog

namespace Kaya

open Code

/-- Memory, the disks with their current cylinders, and the result that is left for
the caller. A block is its words, by cylinder, head, sector and index. -/
structure Disks where
  mem : Word → Word
  cylinder : Word → Word
  block : Word → Word → Word → Word → Nat → Word
  v0 : Word

/-- The address of a word of a page. -/
def pageWord (a : Word) (index : Nat) : Word := a + BitVec.ofNat 32 (4 * index)

namespace Disks

/-- A page of memory gets the words of a block. -/
def readBlock (c : Command) (a : Word) (w : Disks) : Disks :=
  let words := w.block c.devNum (w.cylinder c.devNum) (c.command >>> 16)
    ((c.command >>> 8) &&& 0xFF)
  { w with mem := fun b =>
      if b - a < BitVec.ofNat 32 PAGESIZE then words ((b - a).toNat / 4) else w.mem b }

/-- A block gets the words of a page. -/
def writeBlock (c : Command) (a : Word) (w : Disks) : Disks :=
  { w with block := fun d cyl head sector =>
      if d = c.devNum ∧ cyl = w.cylinder c.devNum ∧ head = c.command >>> 16 ∧
          sector = (c.command >>> 8) &&& 0xFF then
        fun index => w.mem (pageWord a index)
      else w.block d cyl head sector }

/-- What an operation of the process `ID` does when every device operation
succeeds. -/
inductive Acts (ID : Word) : (o : Op) → Disks → o.Answer → Disks → Prop where
  | passeren {w : Disks} {s : Sem} : Acts ID (.passeren s) w () w
  | verhogen {w : Disks} {s : Sem} : Acts ID (.verhogen s) w () w
  | loadWord {w : Disks} {a : Word} : Acts ID (.loadWord a) w (w.mem a) w
  | storeWord {w : Disks} {a v : Word} : Acts ID (.storeWord a v) w ()
      { w with mem := Function.update w.mem a v }
  | setOld {w : Disks} {v : Word} : Acts ID (.setOld ID (.s_reg s_v0) v) w () { w with v0 := v }
  | seek {w : Disks} {c : Command} : c.command &&& 0xFF = DISK_SEEKCYL →
      Acts ID (.waitio c) w READY
        { w with cylinder := Function.update w.cylinder c.devNum (c.command >>> 8) }
  | read {w : Disks} {c : Command} {a : Word} : c.command &&& 0xFF = DISK_READBLK →
      c.d_data0 = some a → Acts ID (.waitio c) w READY (w.readBlock c a)
  | write {w : Disks} {c : Command} {a : Word} : c.command &&& 0xFF = DISK_WRITEBLK →
      c.d_data0 = some a → Acts ID (.waitio c) w READY (w.writeBlock c a)

end Disks

/-- The arguments of a DISK_PUT or a DISK_GET. -/
structure DiskRequest where
  blockAddr : Word
  diskNo : Word
  sectNo : Word

/-- A page of user space, a disk that can be named, and a sector whose cylinder
fits into a seek command. -/
structure DiskRequest.Valid (r : DiskRequest) : Prop where
  aligned : r.blockAddr.toNat % PAGESIZE = 0
  segment : SEG2 ≤ r.blockAddr
  disk : IsDisk r.diskNo
  sector : 0 ≤ r.sectNo.toInt
  cylinder : r.sectNo.toNat / 16 < 2 ^ 24

/-- Cylinder, head and sector of a sector number. -/
def sectorAddress (sectNo : Word) : Word × Word × Word :=
  ((sectNo.sdiv 2).sdiv 8, sectNo.srem 2, (sectNo.sdiv 2).srem 8)

/-- The call for a request. DISK_PUT and DISK_GET differ in `readWrite`. -/
abbrev DiskRequest.code (r : DiskRequest) (S : Setup) (readWrite ID : Word) : Code Unit :=
  diskIO S r.blockAddr r.diskNo r.sectNo readWrite ID

/-- The call returns (`some`), or it has come to `PANIC` or to the end of its caller
(`none`). -/
abbrev RunsDisk (S : Setup) (ID readWrite : Word) (r : DiskRequest) (w : Disks) (x : Option Unit)
    (w' : Disks) : Prop :=
  (r.code S readWrite ID).Runs (Disks.Acts ID) (fun o => o = .panic ∨ o = .terminateProcess) w x w'

/-- DISK_PUTs to other sectors or disks, with any changes to memory in between. -/
inductive OtherPuts (S : Setup) (ID : Word) (r : DiskRequest) : Disks → Disks → Prop where
  | nil {w : Disks} {mem : Word → Word} : OtherPuts S ID r w { w with mem := mem }
  | put {r' : DiskRequest} {w w' w'' : Disks} {mem : Word → Word} : r'.Valid →
      (r'.diskNo, r'.sectNo) ≠ (r.diskNo, r.sectNo) → OtherPuts S ID r w w' →
      RunsDisk S ID DISK_WRITEBLK r' w' (some ()) w'' → OtherPuts S ID r w { w'' with mem := mem }

/-- The call ends, and only by returning. -/
structure Succeeds (S : Setup) (ID readWrite : Word) (r : DiskRequest) (w : Disks) : Prop where
  returns : ∃ w', RunsDisk S ID readWrite r w (some ()) w'
  stops : ∀ w', ¬ RunsDisk S ID readWrite r w none w'

/-- A DISK_PUT of a buffer and, behind DISK_PUTs to other places, a DISK_GET of it
succeed, and the buffer gets its contents back. -/
structure RoundTrip (S : Setup) (ID : Word) (r : DiskRequest) (w : Disks) : Prop where
  put : Succeeds S ID DISK_WRITEBLK r w
  get : ∀ w₁ w₂, RunsDisk S ID DISK_WRITEBLK r w (some ()) w₁ → OtherPuts S ID r w₁ w₂ →
    Succeeds S ID DISK_READBLK r w₂ ∧
      ∀ w₃, RunsDisk S ID DISK_READBLK r w₂ (some ()) w₃ → w₃.v0 = READY ∧
        ∀ index < PAGESIZE / 4, w₃.mem (pageWord r.blockAddr index) =
          w.mem (pageWord r.blockAddr index)

/-- The call comes to `PANIC`, with nothing changed. -/
def Panics (S : Setup) (ID readWrite : Word) (r : DiskRequest) (w : Disks) : Prop :=
  (r.code S readWrite ID).Runs (Disks.Acts ID) (fun o => o = .panic) w none w

variable {S : Setup} {ID readWrite s s' : Word} {r : DiskRequest} {w w' : Disks} {x : Option Unit}

/-- Sector numbers that are not negative are taken apart like natural numbers. -/
theorem sectorAddress_toInt (hs : 0 ≤ s.toInt) : (sectorAddress s).1.toInt = s.toInt / 2 / 8 ∧
    (sectorAddress s).2.1.toInt = s.toInt % 2 ∧ (sectorAddress s).2.2.toInt = s.toInt / 2 % 8 := by
  have htwo : (s.sdiv 2).toInt = s.toInt / 2 := by
    rw [BitVec.toInt_sdiv_of_ne_or_ne _ _ (Or.inr (by decide))]
    exact Int.tdiv_eq_ediv_of_nonneg hs
  have hhalf : 0 ≤ (s.sdiv 2).toInt := by omega
  refine ⟨?_, ?_, ?_⟩
  · have height := BitVec.toInt_sdiv_of_ne_or_ne (s.sdiv 2) 8 (Or.inr (by decide))
    rw [Int.tdiv_eq_ediv_of_nonneg hhalf, htwo] at height
    exact height
  · exact (BitVec.toInt_srem s 2).trans (Int.tmod_eq_emod_of_nonneg hs)
  · have height := BitVec.toInt_srem (s.sdiv 2) 8
    rw [Int.tmod_eq_emod_of_nonneg hhalf, htwo] at height
    exact height

/-- Different sectors are in different places. -/
theorem sectorAddress_inj (hs : 0 ≤ s.toInt) (hs' : 0 ≤ s'.toInt)
    (h : sectorAddress s = sectorAddress s') : s = s' := by
  obtain ⟨hcyl, hhead, hsec⟩ := sectorAddress_toInt hs
  obtain ⟨hcyl', hhead', hsec'⟩ := sectorAddress_toInt hs'
  rw [h] at hcyl hhead hsec
  exact BitVec.eq_of_toInt_eq (by omega)

/-- The guard of `diskIO` lets a valid request pass. -/
theorem DiskRequest.Valid.passes (hr : r.Valid) : ¬ (r.diskNo.toInt ≤ 0 ∨ r.blockAddr < SEG2) := by
  obtain ⟨hlo, hhi⟩ := hr.disk
  rintro (hle | hlt)
  · rw [BitVec.le_def] at hlo hhi
    rw [BitVec.toInt_eq_toNat_cond] at hle
    have hone : (1 : Word).toNat = 1 := rfl
    have hseven : (7 : Word).toNat = 7 := rfl
    split at hle <;> omega
  · exact absurd hr.segment (not_le.mpr hlt)

/-- A valid request comes to `PANIC` before it has done anything. -/
theorem diskIO_panics {ends : Op → Prop} (hr : r.Valid) (hpanic : ends .panic) :
    (r.code S readWrite ID).Runs (Disks.Acts ID) ends w none w := by
  have hguard : (Prog.when (r.diskNo.toInt ≤ 0 ∨ r.blockAddr < SEG2) (meIRL S ID)).Runs
      (Disks.Acts ID) ends w (some ()) w := runs_when.mpr (Or.inr ⟨hr.passes, rfl, rfl⟩)
  unfold DiskRequest.code diskIO
  refine hguard.bind ?_
  dsimp only
  rw [Prog.when, if_pos (diskIO_guard readWrite)]
  exact .stop hpanic

theorem runsDisk_iff (hr : r.Valid) : RunsDisk S ID readWrite r w x w' ↔ x = none ∧ w' = w := by
  constructor
  · intro h
    unfold RunsDisk DiskRequest.code diskIO at h
    rcases h.of_bind with ⟨_, _, hguard, hrest⟩ | ⟨-, hguard⟩
    · rcases runs_when.mp hguard with ⟨hbad, -⟩ | ⟨-, -, rfl⟩
      · exact absurd hbad hr.passes
      · rcases hrest.of_bind with ⟨_, _, htest, -⟩ | ⟨hx, htest⟩
        · rcases runs_when.mp htest with ⟨-, hstop⟩ | ⟨hno, -, -⟩
          · exact absurd ((runs_unanswered Empty.elim).mp hstop).2.1 nofun
          · exact absurd (diskIO_guard readWrite) hno
        · rcases runs_when.mp htest with ⟨-, hstop⟩ | ⟨hno, -, -⟩
          · exact ⟨hx, ((runs_unanswered Empty.elim).mp hstop).2.2⟩
          · exact absurd (diskIO_guard readWrite) hno
    · rcases runs_when.mp hguard with ⟨hbad, -⟩ | ⟨-, hnone, -⟩
      · exact absurd hbad hr.passes
      · exact absurd hnone nofun
  · rintro ⟨rfl, rfl⟩
    exact diskIO_panics hr (Or.inl rfl)

/-- No sector is another one's place, but no valid request survives. -/
theorem not_roundTrip (hr : r.Valid) : ¬ RoundTrip S ID r w ∧
    (∀ readWrite, Panics S ID readWrite r w ∧ ∀ w', ¬ RunsDisk S ID readWrite r w (some ()) w') ∧
    ∀ s s' : Word, 0 ≤ s.toInt → 0 ≤ s'.toInt → sectorAddress s = sectorAddress s' → s = s' := by
  refine ⟨fun htrip => htrip.put.stops w ((runsDisk_iff hr).mpr ⟨rfl, rfl⟩), fun readWrite => ?_,
    fun s s' hs hs' => sectorAddress_inj hs hs'⟩
  refine ⟨diskIO_panics hr rfl, fun w' hrun => ?_⟩
  exact absurd ((runsDisk_iff hr).mp hrun).1 nofun

/-- The first page of user space and sector 3 of disk 1. -/
def firstRequest : DiskRequest := ⟨0x80000000, 1, 3⟩

theorem firstRequest_valid : firstRequest.Valid :=
  ⟨by decide, by decide, ⟨by decide, by decide⟩, by decide, by decide⟩

def emptyDisks : Disks := ⟨fun _ => 0, fun _ => 0, fun _ _ _ _ _ => 0, 0⟩

theorem not_roundTrip_first : ¬ RoundTrip .small 1 firstRequest emptyDisks ∧
    Panics .small 1 DISK_WRITEBLK firstRequest emptyDisks := by
  obtain ⟨hnot, hruns, -⟩ :=
    not_roundTrip (S := .small) (w := emptyDisks) firstRequest_valid
  exact ⟨hnot, (hruns DISK_WRITEBLK).1⟩

/-- A DISK_PUT panics. -/
theorem not_always_roundTrip : ¬ ∀ (S : Setup) (ID : Word) (r : DiskRequest) (w : Disks),
    r.Valid → RoundTrip S ID r w := fun hall =>
  (hall .small 1 firstRequest emptyDisks firstRequest_valid).put.stops emptyDisks
    ((runsDisk_iff firstRequest_valid).mpr ⟨rfl, rfl⟩)

end Kaya
