import Kaya.Phase3.InitProc
import Kaya.Phase3.Isolation

namespace Kaya

/-! The buffers and stacks behind the code of the system, for any number `n` of user
processes, `MAXUSERPROC`. -/

def TAPEBUFFTOP : Word := OSCODEEND + BitVec.ofNat 32 (DEVPERINT * PAGESIZE)

def DISKBUFFTOP : Word := TAPEBUFFTOP + BitVec.ofNat 32 (DEVPERINT * PAGESIZE)

def EXECTOP (n : Nat) : Word := DISKBUFFTOP + BitVec.ofNat 32 n * 2 * BitVec.ofNat 32 PAGESIZE

/-- `k * UPROCSTCKSIZE`: the macro is not in parentheses. -/
def uProcStacks (k : Word) : Word := k * 2 * BitVec.ofNat 32 PAGESIZE

def TrapType.number : TrapType → Word
  | .TLBTRAP => 0
  | .PROGTRAP => 1
  | .SYSTRAP => 2

/-- The `s_sp` that `uProcInit` gives the handlers of a process. That of the program
trap handler is the number of the trap, where `PROGTOP` has been computed for it. -/
def handlerSp (n : Nat) (asid : Word) (trap : TrapType) : Word :=
  let PROGTOP := EXECTOP n - uProcStacks (asid - 1)
  let SYSTOP := PROGTOP
  let TLBTOP := PROGTOP - BitVec.ofNat 32 PAGESIZE
  match trap with
  | .SYSTRAP => SYSTOP
  | .TLBTRAP => TLBTOP
  | .PROGTRAP => TrapType.PROGTRAP.number

/-- The `s_sp` that `test` gives the delay daemon. -/
def delaySp (n : Nat) : Word := EXECTOP n - uProcStacks (BitVec.ofNat 32 n)

/-- Who uses a page there. -/
inductive Owner where
  | handler (asid : Nat) (trap : TrapType)
  | delayDaemon
  | tape (asid : Nat)
  | disk (diskNo : Nat)
  deriving DecidableEq

namespace Owner

/-- The owners with `n` user processes. -/
def InUse (n : Nat) : Owner → Prop
  | handler asid _ => 1 ≤ asid ∧ asid ≤ n
  | delayDaemon => True
  | tape asid => 1 ≤ asid ∧ asid ≤ n
  | disk diskNo => 1 ≤ diskNo ∧ diskNo ≤ 7

/-- The lowest address of its page; a stack grows down from its `s_sp`. -/
def base (n : Nat) : Owner → Word
  | handler asid trap => handlerSp n (BitVec.ofNat 32 asid) trap - BitVec.ofNat 32 PAGESIZE
  | delayDaemon => delaySp n - BitVec.ofNat 32 PAGESIZE
  | tape asid => tapeBuffer (BitVec.ofNat 32 asid)
  | disk diskNo => diskBuffer (BitVec.ofNat 32 diskNo)

def area (n : Nat) (o : Owner) : Set Word := {x | (x - o.base n).toNat < PAGESIZE}

/-- The SYSCALL and the program trap handler of a process may share a stack. -/
def ShareStack (o o' : Owner) : Prop :=
  ∃ asid trap trap', trap ≠ .TLBTRAP ∧ trap' ≠ .TLBTRAP ∧ o = handler asid trap ∧
    o' = handler asid trap'

/-- An owner that is not a program trap handler. -/
def Placed : Owner → Prop
  | handler _ trap => trap ≠ .PROGTRAP
  | _ => True

def HasStack : Owner → Prop
  | handler _ _ => True
  | delayDaemon => True
  | _ => False

end Owner

/-- The stacks of the handlers lie between the disk buffers and `EXECTOP`, and no two
owners use the same memory. -/
structure LaidOut (n : Nat) (among : Owner → Prop) : Prop where
  inside : ∀ asid trap, among (.handler asid trap) →
    (Owner.handler asid trap).area n ⊆ {x | DISKBUFFTOP ≤ x ∧ x < EXECTOP n}
  apart : ∀ o o', among o → among o' → o ≠ o' → ¬ o.ShareStack o' →
    ∀ x ∈ o.area n, x ∉ o'.area n

variable {n : Nat} {o o' : Owner}

/-- The page of an owner, counted from the end of the code. -/
def Owner.page (n : Nat) : Owner → Nat
  | handler asid trap => DEVPERINT + DEVPERINT + 2 * (n - asid) + if trap = .TLBTRAP then 0 else 1
  | delayDaemon => DEVPERINT + DEVPERINT - 1
  | tape asid => asid - 1
  | disk diskNo => diskNo

/-- `EXECTOP` has not overflowed. -/
def TopFits (n : Nat) : Prop := (EXECTOP n).toNat = DISKBUFFTOP.toNat + n * 2 * PAGESIZE

theorem DISKBUFFTOP_toNat : DISKBUFFTOP.toNat = 0x2002E000 := rfl

theorem OSCODEEND_toNat : OSCODEEND.toNat = 0x2001E000 := rfl

theorem TopFits.toNat (h : TopFits n) : (EXECTOP n).toNat = 0x2002E000 + n * 8192 := by
  rw [h, DISKBUFFTOP_toNat]
  simp only [PAGESIZE]
  omega

theorem TopFits.lt (h : TopFits n) : n < 524288 := by
  have hlt := (EXECTOP n).isLt
  rw [h.toNat] at hlt
  omega

theorem ofNat_sub_one {k : Nat} (hk : 1 ≤ k) : BitVec.ofNat 32 k - 1 = BitVec.ofNat 32 (k - 1) := by
  apply BitVec.eq_of_toNat_eq
  rw [BitVec.toNat_sub, BitVec.toNat_ofNat, BitVec.toNat_ofNat, show BitVec.toNat 1 = 1 from rfl]
  omega

theorem uProcStacks_toNat {k : Nat} (hk : k < 524288) :
    (uProcStacks (BitVec.ofNat 32 k)).toNat = k * 8192 := by
  have htwo : BitVec.toNat (2 : Word) = 2 := rfl
  simp only [uProcStacks, PAGESIZE, BitVec.toNat_mul, BitVec.toNat_ofNat, htwo]
  omega

theorem page_toNat {k : Nat} (hk : k < 524288) :
    (OSCODEEND + BitVec.ofNat 32 k * BitVec.ofNat 32 PAGESIZE).toNat =
      OSCODEEND.toNat + k * PAGESIZE := by
  rw [OSCODEEND_toNat]
  simp only [PAGESIZE, OSCODEEND_toNat, BitVec.toNat_add, BitVec.toNat_mul, BitVec.toNat_ofNat]
  omega

theorem Owner.base_toNat (h : TopFits n) (hused : o.InUse n) (hplaced : o.Placed) :
    (o.base n).toNat = OSCODEEND.toNat + o.page n * PAGESIZE := by
  have hlt := h.lt
  have htop := h.toNat
  have hpage : (BitVec.ofNat 32 PAGESIZE).toNat = 4096 := rfl
  rw [OSCODEEND_toNat]
  cases o with
  | handler asid trap =>
    obtain ⟨hlo, hhi⟩ := hused
    have hstacks := uProcStacks_toNat (k := asid - 1) (by omega)
    cases trap with
    | PROGTRAP => exact absurd rfl hplaced
    | TLBTRAP =>
      simp only [base, handlerSp, page, ofNat_sub_one hlo, BitVec.toNat_sub, hstacks, htop, hpage,
        PAGESIZE, DEVPERINT, if_true]
      omega
    | SYSTRAP =>
      simp only [base, handlerSp, page, ofNat_sub_one hlo, BitVec.toNat_sub, hstacks, htop, hpage,
        PAGESIZE, DEVPERINT, reduceCtorEq, if_false]
      omega
  | delayDaemon =>
    have hstacks := uProcStacks_toNat (k := n) (by omega)
    simp only [base, delaySp, page, BitVec.toNat_sub, hstacks, htop, hpage, PAGESIZE, DEVPERINT]
    omega
  | tape asid =>
    obtain ⟨hlo, hhi⟩ := hused
    rw [base, tapeBuffer, ofNat_sub_one hlo, page_toNat (by omega), OSCODEEND_toNat, page]
  | disk diskNo =>
    obtain ⟨hlo, hhi⟩ := hused
    rw [base, diskBuffer, page_toNat (by omega), OSCODEEND_toNat, page]

/-- The page that starts at a multiple of `PAGESIZE`. -/
theorem mem_page {base x : Word} {k : Nat} (hbase : base.toNat = k * PAGESIZE) :
    (x - base).toNat < PAGESIZE ↔ x.toNat / PAGESIZE = k := by
  have hlt := base.isLt
  have hx := x.isLt
  rw [BitVec.toNat_sub, hbase]
  rw [hbase] at hlt
  simp only [PAGESIZE] at hlt ⊢
  omega

theorem Owner.mem_area (h : TopFits n) (hused : o.InUse n) (hplaced : o.Placed) (x : Word) :
    x ∈ o.area n ↔ x.toNat / PAGESIZE = OSCODEEND.toNat / PAGESIZE + o.page n := by
  refine mem_page ?_
  rw [o.base_toNat h hused hplaced, OSCODEEND_toNat]
  simp only [PAGESIZE]
  omega

theorem Owner.apart (h : TopFits n) (hused : o.InUse n) (hplaced : o.Placed) (hused' : o'.InUse n)
    (hplaced' : o'.Placed) (hpage : o.page n ≠ o'.page n) : ∀ x ∈ o.area n, x ∉ o'.area n := by
  intro x hx hx'
  rw [mem_area h hused hplaced] at hx
  rw [mem_area h hused' hplaced'] at hx'
  omega

theorem Owner.handler_inside (h : TopFits n) {asid : Nat} {trap : TrapType}
    (hused : (handler asid trap).InUse n) (hplaced : (handler asid trap).Placed) :
    (handler asid trap).area n ⊆ {x | DISKBUFFTOP ≤ x ∧ x < EXECTOP n} := by
  intro x hx
  rw [mem_area h hused hplaced, OSCODEEND_toNat] at hx
  obtain ⟨hlo, hhi⟩ := hused
  have htop := h.toNat
  have hpage : 16 ≤ (handler asid trap).page n ∧ (handler asid trap).page n < 16 + 2 * n := by
    simp only [page, DEVPERINT]
    split <;> omega
  simp only [PAGESIZE] at hx
  constructor
  · show DISKBUFFTOP.toNat ≤ x.toNat
    rw [DISKBUFFTOP_toNat]
    omega
  · show x.toNat < (EXECTOP n).toNat
    omega

/-- The stacks of the handlers and of the delay daemon are apart, whatever the number
of processes. -/
theorem Owner.page_ne_of_hasStack (hused : o.InUse n) (hplaced : o.Placed) (hused' : o'.InUse n)
    (hplaced' : o'.Placed) (hstack : o.HasStack) (hstack' : o'.HasStack) (hne : o ≠ o') :
    o.page n ≠ o'.page n := by
  cases o with
  | handler asid trap =>
    obtain ⟨hlo, hhi⟩ := hused
    cases o' with
    | handler asid' trap' =>
      obtain ⟨hlo', hhi'⟩ := hused'
      cases trap <;> cases trap' <;> simp_all [page, Placed] <;> omega
    | delayDaemon =>
      simp only [page, DEVPERINT]
      omega
    | tape asid' => exact hstack'.elim
    | disk diskNo => exact hstack'.elim
  | delayDaemon =>
    cases o' with
    | handler asid' trap' =>
      simp only [page, DEVPERINT]
      omega
    | delayDaemon => exact absurd rfl hne
    | tape asid' => exact hstack'.elim
    | disk diskNo => exact hstack'.elim
  | tape asid => exact hstack.elim
  | disk diskNo => exact hstack.elim

theorem Owner.le_page (hstack : o.HasStack) : 15 ≤ o.page n := by
  cases o with
  | handler asid trap =>
    simp only [page, DEVPERINT]
    omega
  | delayDaemon => exact le_refl 15
  | tape asid => exact hstack.elim
  | disk diskNo => exact hstack.elim

theorem Owner.page_le (hused : o.InUse 1) (hstack : ¬ o.HasStack) : o.page 1 ≤ 7 := by
  cases o with
  | handler asid trap => exact absurd trivial hstack
  | delayDaemon => exact absurd trivial hstack
  | tape asid =>
    obtain ⟨hlo, hhi⟩ := hused
    simp only [page]
    omega
  | disk diskNo => exact hused.2

/-- With one process the tape buffer lies below those of the disks. -/
theorem Owner.page_ne_of_buffer (hused : o.InUse 1) (hused' : o'.InUse 1) (hstack : ¬ o.HasStack)
    (hstack' : ¬ o'.HasStack) (hne : o ≠ o') : o.page 1 ≠ o'.page 1 := by
  cases o with
  | handler asid trap => exact absurd trivial hstack
  | delayDaemon => exact absurd trivial hstack
  | tape asid =>
    obtain ⟨hlo, hhi⟩ := hused
    cases o' with
    | handler asid' trap' => exact absurd trivial hstack'
    | delayDaemon => exact absurd trivial hstack'
    | tape asid' =>
      obtain ⟨hlo', hhi'⟩ := hused'
      obtain rfl : asid = asid' := by omega
      exact absurd rfl hne
    | disk diskNo =>
      obtain ⟨hlo', hhi'⟩ := hused'
      simp only [page]
      omega
  | disk diskNo =>
    obtain ⟨hlo, hhi⟩ := hused
    cases o' with
    | handler asid' trap' => exact absurd trivial hstack'
    | delayDaemon => exact absurd trivial hstack'
    | tape asid' =>
      obtain ⟨hlo', hhi'⟩ := hused'
      simp only [page]
      omega
    | disk diskNo' => simpa [page] using hne

/-- With one process the buffers lie below the stacks. -/
theorem Owner.page_ne_of_one (hused : o.InUse 1) (hplaced : o.Placed) (hused' : o'.InUse 1)
    (hplaced' : o'.Placed) (hne : o ≠ o') : o.page 1 ≠ o'.page 1 := by
  by_cases hstack : o.HasStack
  · have hlo := le_page (n := 1) hstack
    by_cases hstack' : o'.HasStack
    · exact page_ne_of_hasStack hused hplaced hused' hplaced' hstack hstack' hne
    · have hhi := page_le hused' hstack'
      omega
  · have hhi := page_le hused hstack
    by_cases hstack' : o'.HasStack
    · have hlo := le_page (n := 1) hstack'
      omega
    · exact page_ne_of_buffer hused hused' hstack hstack' hne

theorem LaidOut.of_fits {among : Owner → Prop} (h : TopFits n)
    (hamong : ∀ o, among o → o.InUse n ∧ o.Placed)
    (hpage : ∀ o o', among o → among o' → o ≠ o' → o.page n ≠ o'.page n) : LaidOut n among where
  inside _ _ hmem :=
    have hin := hamong _ hmem
    Owner.handler_inside h hin.1 hin.2
  apart o o' ho ho' hne _ :=
    have hin := hamong o ho
    have hin' := hamong o' ho'
    Owner.apart h hin.1 hin.2 hin'.1 hin'.2 (hpage o o' ho ho' hne)

/-- The tape buffer of process 2 is the buffer of disk 1. -/
theorem tape_mem_disk (n : Nat) :
    tapeBuffer 2 ∈ (Owner.tape 2).area n ∧ tapeBuffer 2 ∈ (Owner.disk 1).area n := by
  have htape : tapeBuffer 2 ∈ (Owner.tape 2).area n := by
    show (tapeBuffer 2 - tapeBuffer 2).toNat < PAGESIZE
    decide
  have hdisk : tapeBuffer 2 ∈ (Owner.disk 1).area n := by
    show (tapeBuffer 2 - diskBuffer 1).toNat < PAGESIZE
    decide
  exact ⟨htape, hdisk⟩

/-- The stack of a program trap handler ends at address 0. -/
theorem zero_mem_area (n asid : Nat) : 0 ∈ (Owner.handler asid .PROGTRAP).area n := by
  show (0 - (TrapType.PROGTRAP.number - BitVec.ofNat 32 PAGESIZE)).toNat < PAGESIZE
  decide

/-- The memory is never laid out as it was meant, because of the stacks of the program
trap handlers. Without these it is exactly for a single process, and the stacks alone
are in place for every number of processes. -/
theorem layout_never (n : Nat) (hn : 1 ≤ n) : ¬ LaidOut n (Owner.InUse n) ∧
    (LaidOut n (fun o => o.InUse n ∧ o.Placed) ↔ n = 1) ∧
    (TopFits n → LaidOut n fun o => o.InUse n ∧ o.Placed ∧ o.HasStack) := by
  refine ⟨fun hlaid => ?_, ⟨fun hlaid => ?_, ?_⟩, fun hfits => ?_⟩
  · have hinside := hlaid.inside 1 .PROGTRAP ⟨le_refl 1, hn⟩ (zero_mem_area n 1)
    exact absurd hinside.1 (by decide)
  · by_contra hne
    obtain ⟨htape, hdisk⟩ := tape_mem_disk n
    have hapart := hlaid.apart (.tape 2) (.disk 1) ⟨⟨by omega, by omega⟩, trivial⟩
      ⟨⟨by omega, by omega⟩, trivial⟩ nofun (by simp [Owner.ShareStack])
    exact hapart (tapeBuffer 2) htape hdisk
  · rintro rfl
    refine .of_fits (show TopFits 1 from rfl) (fun o ho => ho) ?_
    exact fun o o' ho ho' hne => Owner.page_ne_of_one ho.1 ho.2 ho'.1 ho'.2 hne
  · refine .of_fits hfits (fun o ho => ⟨ho.1, ho.2.1⟩) ?_
    exact fun o o' ho ho' hne =>
      Owner.page_ne_of_hasStack ho.1 ho.2.1 ho'.1 ho'.2.1 ho.2.2 ho'.2.2 hne

/-- One user process, as in `const.h`. -/
theorem layout_never_one : LaidOut 1 (fun o => o.InUse 1 ∧ o.Placed) ∧
    ¬ LaidOut 1 (Owner.InUse 1) :=
  ⟨(layout_never 1 (by decide)).2.1.mpr rfl, (layout_never 1 (by decide)).1⟩

/-- The stack of the program trap handler of process 1. -/
theorem not_always_laidOut : ¬ ∀ n, 1 ≤ n → LaidOut n (Owner.InUse n) := by
  intro hall
  have hinside := (hall 1 (by decide)).inside 1 .PROGTRAP ⟨le_refl 1, le_refl 1⟩ (zero_mem_area 1 1)
  exact absurd hinside.1 (by decide)

end Kaya
