import Kaya.Phase3.Processes

namespace Kaya

/-- `pteEntry_t` -/
structure PteEntry where
  entryHI : Word
  entryLO : Word

/-- `pte_t`, and `pteOS_t` with more entries. -/
structure PageTable where
  header : Word
  pteTable : Nat → PteEntry

/-- What a segment table points to. -/
inductive TablePtr where
  | kuSegOS
  | kuSeg3
  /-- `&(uProcs[i].uProc_pte)` -/
  | uProc_pte (i : Nat)
  deriving DecidableEq

/-- `segTbl_t` -/
structure SegTbl where
  ksegOS : TablePtr
  kuseg2 : TablePtr
  kuseg3 : TablePtr

/-- The variables of phase 3 that `test` sets up, and the segment table of each `ASID`. -/
structure Globals where
  kuSegOS : PageTable
  kuSeg3 : PageTable
  swapPool : Nat → Swap
  swap : Word
  mutexArray : Nat → Word
  masterSem : Word
  uProc_pte : Nat → PageTable
  uProc_semAdd : Nat → Word
  segTbl : Nat → SegTbl

/-- Cleared memory. -/
def PageTable.zero : PageTable := ⟨0, fun _ => ⟨0, 0⟩⟩

/-- The variables before `test` runs. -/
def Globals.bss : Globals where
  kuSegOS := .zero
  kuSeg3 := .zero
  swapPool _ := ⟨0, 0, 0, .null⟩
  swap := 0
  mutexArray _ := 0
  masterSem := 0
  uProc_pte _ := .zero
  uProc_semAdd _ := 0
  segTbl _ := ⟨.kuSegOS, .kuSegOS, .kuSegOS⟩

/-- A loop that stores to the first `n` entries of an array, one after the other. -/
def fill {α : Type} (n : Nat) (v : Nat → α) (f : Nat → α) : Nat → α :=
  (List.range n).foldl (fun f i => Function.update f i (v i)) f

/-- `(PTEMAGICNO << SHIFT_MAGIC) | size` -/
def tableHeader (size : Nat) : Word := (PTEMAGICNO <<< 24) ||| BitVec.ofNat 32 size

/-- `(page << SHIFT_VPN)` -/
def entryPage (page : Nat) : Word := BitVec.ofNat 32 page <<< 12

/-- The identity on the first pages of the RAM, for everybody. -/
def setupKuSegOS (t : PageTable) : PageTable where
  header := tableHeader KSEGSIZE
  pteTable := fill KSEGSIZE (fun i =>
    { entryHI := entryPage (0x20000 + i)
      entryLO := entryPage (0x20000 + i) ||| DIRTY ||| GLOBAL ||| VALID }) t.pteTable

def setupKuSeg3 (t : PageTable) : PageTable where
  header := tableHeader KUSEGSIZE
  pteTable := fill KUSEGSIZE (fun i =>
    { entryHI := entryPage (0xC0000 + i) ||| (0 <<< 6)
      entryLO := ALLOFF ||| GLOBAL ||| DIRTY }) t.pteTable

/-- The `kUseg2` of the process with `ASID` `i`. The loop lists the page behind the code in
the last entry, which is given to the stack afterwards. -/
def setupUProcPte (i : Nat) (t : PageTable) : PageTable :=
  let pteTable := fill KUSEGSIZE (fun j =>
    { entryHI := entryPage (0x80000 + j) ||| (BitVec.ofNat 32 i <<< 6)
      entryLO := ALLOFF ||| DIRTY }) t.pteTable
  { header := tableHeader KUSEGSIZE
    pteTable := Function.update pteTable (KUSEGSIZE - 1)
      { pteTable (KUSEGSIZE - 1) with
        entryHI := entryPage 0xBFFFF ||| (BitVec.ofNat 32 i <<< 6) } }

/-- What `test` does for the process with `ASID` `i` before its SYS1. -/
def setupProcess (g : Globals) (i : Nat) : Globals :=
  { g with
    uProc_pte := Function.update g.uProc_pte (i - 1) (setupUProcPte i (g.uProc_pte (i - 1)))
    segTbl := Function.update g.segTbl i ⟨.kuSegOS, .uProc_pte (i - 1), .kuSeg3⟩
    uProc_semAdd := Function.update g.uProc_semAdd (i - 1) 0 }

/-- `test` up to the creation of the delay daemon; the SYS1s are left out. -/
def testSetup (S : Setup) (g : Globals) : Globals :=
  let g := { g with
    kuSegOS := setupKuSegOS g.kuSegOS
    kuSeg3 := setupKuSeg3 g.kuSeg3
    swapPool := fill S.SWAPSIZE (fun i =>
      { g.swapPool i with sw_asid := -1, sw_pte := .null }) g.swapPool
    swap := 1
    mutexArray := fill TOTALSEM (fun _ => 1) g.mutexArray
    masterSem := 0 }
  (List.range S.MAXUSERPROC).foldl (fun g k => setupProcess g (k + 1)) g

/-- The variables that `test` leaves behind. -/
def Globals.booted (S : Setup) : Globals := testSetup S .bss

namespace Globals

variable (g : Globals)

def table : TablePtr → PageTable
  | .kuSegOS => g.kuSegOS
  | .kuSeg3 => g.kuSeg3
  | .uProc_pte i => g.uProc_pte i

/-- The `entryLO` of the entries that the swap pool can point to. -/
def entryLO : PtePtr → Word
  | .null => 0
  | .kuSeg3 page => (g.kuSeg3.pteTable page.toNat).entryLO
  | .uProc_pte ID page => ((g.uProc_pte (ID - 1).toNat).pteTable page.toNat).entryLO

end Globals

/-! How the processor translates addresses. -/

/-- What comes of an access to an address: a page of the RAM or an exception. -/
inductive Access where
  | page (frame : Word)
  /-- TLBL or TLBS -/
  | invalid
  | Mod
  | PTMs
  | BdPT
  deriving DecidableEq

/-- The entry is for the page of an address in an address space. -/
def PteEntry.Matches (e : PteEntry) (asid a : Word) : Prop :=
  e.entryHI >>> 12 = a >>> 12 ∧
    (e.entryLO &&& GLOBAL = GLOBAL ∨ (e.entryHI &&& GET_ASID) >>> 6 = asid)

instance (e : PteEntry) (asid a : Word) : Decidable (e.Matches asid a) :=
  inferInstanceAs (Decidable (_ ∧ _))

/-- The first entry of a table for an address. -/
def PageTable.find (t : PageTable) (asid a : Word) : Option Nat :=
  (List.range (t.header &&& 0xFFFFF).toNat).find? fun i => (t.pteTable i).Matches asid a

/-- An access by means of an entry. -/
def PteEntry.access (e : PteEntry) (store : Bool) : Access :=
  if e.entryLO &&& VALID ≠ VALID then .invalid
  else if store ∧ e.entryLO &&& DIRTY ≠ DIRTY then .Mod
  else .page (e.entryLO &&& 0xFFFFF000)

/-- An access by means of a page table. -/
def PageTable.access (t : PageTable) (asid a : Word) (store : Bool) : Access :=
  if t.header >>> 24 ≠ PTEMAGICNO then .BdPT
  else match t.find asid a with
    | none => .PTMs
    | some i => (t.pteTable i).access store

/-- The table of the segment of an address. -/
def SegTbl.tableFor (s : SegTbl) (a : Word) : TablePtr :=
  if a < SEG2 then s.ksegOS
  else if a < SEG3 then s.kuseg2
  else s.kuseg3

/-- An access in the address space `asid`, with translation turned on. -/
def Globals.access (g : Globals) (asid a : Word) (store : Bool) : Access :=
  (g.table ((g.segTbl asid.toNat).tableFor a)).access asid a store

/-- The tables with the values that the pager has given to `entryLO`. -/
def Globals.update {β : Type} (g : Globals) (s : Phase3 β) : Globals :=
  { g with
    kuSeg3 := { g.kuSeg3 with
      pteTable := fun i => { g.kuSeg3.pteTable i with entryLO := s.kuSeg3 (BitVec.ofNat 32 i) } }
    uProc_pte := fun k => { g.uProc_pte k with
      pteTable := fun j => { (g.uProc_pte k).pteTable j with
        entryLO := s.uProc_pte (BitVec.ofNat 32 (k + 1)) (BitVec.ofNat 32 j) } } }

end Kaya
