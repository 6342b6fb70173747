import Kaya.Exec.Alone
import Kaya.Phase3.Processes
import Mathlib.Data.Nat.Bitwise

open Exec Prog

namespace Kaya

open Code

/-- What an operation of a process does while no other process runs. The devices
may be `ready` after every command. -/
inductive Alone {β : Type} (S : Setup) (ready : Bool) (ID : Word) :
    (o : Op) → Phase3 β → o.Answer → Phase3 β → Prop where
  | semaphore {o : Op} {s : Phase3 β} {r : o.Answer} : opKind S o ≠ .other → Alone S ready ID o s r s
  | waitio {c : Command} {s s' : Phase3 β} {r : Word} {v v' : Sem → Int} :
      Acts S ID (.waitio c) (v, s) r (v', s') → (ready = true → r = READY) →
      Alone S ready ID (.waitio c) s r s'
  | other {o : Op} {s s' : Phase3 β} {r : o.Answer} {v v' : Sem → Int} : opKind S o = .other →
      (∀ c, o ≠ .waitio c) → Acts S ID o (v, s) r (v', s') → Alone S ready ID o s r s'

/-- A process runs code without interruption; `none` stands for its end. -/
abbrev RunsAlone {α β : Type} (S : Setup) (ready : Bool) (ID : Word) (p : Code α) (s : Phase3 β)
    (x : Option α) (s' : Phase3 β) : Prop :=
  p.Runs (Alone S ready ID) (fun o => opKind S o = .exit) s x s'

/-! The words of commands and of page table entries -/

theorem and_low_shiftLeft (x : Word) : (x <<< 8) &&& 0xFF = 0#32 := by
  apply BitVec.eq_of_toNat_eq
  rw [BitVec.toNat_and, BitVec.toNat_shiftLeft, Nat.shiftLeft_eq]
  change _ &&& (2 ^ 8 - 1) = 0
  rw [Nat.and_two_pow_sub_one_eq_mod]
  omega

/-- The code of a command in its low byte. -/
theorem command_code (x c : Word) (hc : c &&& 0xFF = c) : ((x <<< 8) ||| c) &&& 0xFF = c := by
  rw [BitVec.and_or_distrib_right, and_low_shiftLeft, BitVec.zero_or, hc]

/-- The argument of a command above its low byte. -/
theorem command_argument (x c : Word) (hx : x.toNat < 2 ^ 24) (hc : c.toNat < 256) :
    ((x <<< 8) ||| c) >>> 8 = x := by
  apply BitVec.eq_of_toNat_eq
  rw [BitVec.toNat_ushiftRight, BitVec.toNat_or, BitVec.toNat_shiftLeft, Nat.shiftRight_or_distrib,
    Nat.shiftLeft_eq, Nat.shiftRight_eq_div_pow, Nat.shiftRight_eq_div_pow,
    Nat.mod_eq_of_lt (by omega), Nat.mul_div_cancel _ (by decide), Nat.div_eq_of_lt hc, Nat.or_zero]

theorem DISKINT_ne : BitVec.ofNat 32 DISKINT ≠ (BitVec.ofNat 32 TAPEINT : Word) := by decide

section

variable {β : Type} {S : Setup} {s s' : Phase3 β} {c : Command} {a sector cylinder ID : Word}

/-- The head and the sector of a transfer with head 0. -/
theorem command_block (x c : Word) (hx : x.toNat < 256) (hc : c.toNat < 256) :
    ((x <<< 8) ||| c) >>> 16 = 0 ∧ (((x <<< 8) ||| c) >>> 8) &&& 0xFF = x := by
  have harg := command_argument x c (by omega) hc
  constructor
  · rw [show (16 : Nat) = 8 + 8 from rfl, BitVec.shiftRight_add, harg]
    apply BitVec.eq_of_toNat_eq
    rw [BitVec.toNat_ushiftRight, Nat.shiftRight_eq_div_pow, Nat.div_eq_of_lt hx]
    rfl
  · rw [harg]
    apply BitVec.eq_of_toNat_eq
    rw [BitVec.toNat_and]
    change _ &&& (2 ^ 8 - 1) = _
    rw [Nat.and_two_pow_sub_one_eq_mod, Nat.mod_eq_of_lt hx]

/-- What a seek of disk 0 does. -/
theorem Phase3.Done.of_seek (h : s.Done c s') (hdev : c.devNum = DISK0)
    (hline : c.line ≠ BitVec.ofNat 32 TAPEINT) (hcom : c.command = (cylinder <<< 8) ||| DISK_SEEKCYL)
    (hcyl : cylinder.toNat < 2 ^ 24) : s' = { s with cylinder := cylinder } := by
  have hcode : c.command &&& 0xFF = DISK_SEEKCYL := hcom ▸ command_code _ _ (by decide)
  cases h with
  | seek _ _ => rw [hcom, command_argument _ _ hcyl (by decide)]
  | read _ hread _ => exact absurd (hcode.symm.trans hread) (by decide)
  | write _ hwrite _ => exact absurd (hcode.symm.trans hwrite) (by decide)
  | tape _ htape _ _ _ => exact absurd htape hline
  | other hne _ => exact absurd hdev hne

section transfer

variable (h : s.Done c s') (hdev : c.devNum = DISK0) (hline : c.line ≠ BitVec.ofNat 32 TAPEINT)
  (hdata : c.d_data0 = some a) (hsec : sector.toNat < 256)

include h hdev hline hdata hsec

/-- A read of disk 0 by head 0. -/
theorem Phase3.Done.of_read (hcom : c.command = (sector <<< 8) ||| DISK_READBLK) :
    s' = s.setPage a (s.block s.cylinder 0 sector) := by
  have hcode : c.command &&& 0xFF = DISK_READBLK := hcom ▸ command_code _ _ (by decide)
  obtain ⟨hhead, hsector⟩ := command_block sector DISK_READBLK hsec (by decide)
  cases h with
  | seek _ hseek => exact absurd (hcode.symm.trans hseek) (by decide)
  | read _ _ ha =>
    obtain rfl := Option.some.inj (hdata.symm.trans ha)
    rw [hcom, hhead, hsector]
  | write _ hwrite _ => exact absurd (hcode.symm.trans hwrite) (by decide)
  | tape _ htape _ _ _ => exact absurd htape hline
  | other hne _ => exact absurd hdev hne

/-- A write of disk 0 by head 0. -/
theorem Phase3.Done.of_write (hcom : c.command = (sector <<< 8) ||| DISK_WRITEBLK) :
    s' = s.setBlock s.cylinder 0 sector (s.page a) := by
  have hcode : c.command &&& 0xFF = DISK_WRITEBLK := hcom ▸ command_code _ _ (by decide)
  obtain ⟨hhead, hsector⟩ := command_block sector DISK_WRITEBLK hsec (by decide)
  cases h with
  | seek _ hseek => exact absurd (hcode.symm.trans hseek) (by decide)
  | read _ hread _ => exact absurd (hcode.symm.trans hread) (by decide)
  | write _ _ ha =>
    obtain rfl := Option.some.inj (hdata.symm.trans ha)
    rw [hcom, hhead, hsector]
  | tape _ htape _ _ _ => exact absurd htape hline
  | other hne _ => exact absurd hdev hne

end transfer

theorem Alone.of_waitio {r : Word} (h : Alone S true ID (.waitio c) s r s') :
    r = READY ∧ s.Done c s' := by
  cases h with
  | semaphore hkind => exact absurd rfl hkind
  | waitio hact hready =>
    have hr := hready rfl
    cases hact with
    | ready hdone => exact ⟨rfl, hdone⟩
    | answers hne => exact absurd hr hne
  | other _ hne _ => exact absurd rfl (hne c)

theorem Alone.of_semaphore {ready : Bool} {o : Op} {r : o.Answer} (h : Alone S ready ID o s r s')
    (hkind : opKind S o ≠ .other) : s' = s := by
  cases h with
  | semaphore _ => rfl
  | waitio _ _ => exact absurd rfl hkind
  | other hother _ _ => exact absurd hother hkind

/-- The seek and the transfer of `readWriteBacking`, when the disk is ready. -/
theorem runs_readWriteBacking {head isRead : Word}
    (h : RunsAlone S true ID (readWriteBacking cylinder sector head isRead a) s (some ()) s') :
    ∃ s₁, s.Done (seekCommand DISK0 cylinder) s₁ ∧
      s₁.Done (blockCommand DISK0 head (sector - 1) isRead a) s' := by
  unfold readWriteBacking at h
  obtain ⟨_, s₀, hguard, hlocked⟩ := runs_bind_some.mp h
  have hs₀ : s₀ = s := by
    rcases runs_when.mp hguard with ⟨_, hpanic⟩ | ⟨_, _, hsame⟩
    · exact absurd ((runs_unanswered Empty.elim).mp hpanic).2.1 nofun
    · exact hsame
  obtain ⟨_, s₁, hP, hbusy⟩ := runs_bind_some.mp hlocked
  have hs₁ : s₁ = s := ((runs_perform.mp hP).of_semaphore nofun).trans hs₀
  obtain ⟨status, s₂, hseek, hrest⟩ := runs_bind_some.mp hbusy
  obtain ⟨hstatus, hseek⟩ := (runs_perform.mp hseek).of_waitio
  obtain ⟨_, s₃, hwhen, hV⟩ := runs_bind_some.mp hrest
  have hs' : s' = s₃ := (runs_perform.mp hV).of_semaphore nofun
  rcases runs_when.mp hwhen with ⟨_, htransfer⟩ | ⟨hne, _⟩
  · obtain ⟨_, s₄, htransfer, hret⟩ := runs_bind_some.mp htransfer
    have hs₃ : s₃ = s₄ := (runs_ret.mp hret).2
    rw [hs', hs₃]
    exact ⟨s₂, hs₁ ▸ hseek, (runs_perform.mp htransfer).of_waitio.2⟩
  · exact absurd hstatus hne

theorem head_zero (x c : Word) : (DISK0 <<< 16) ||| (x <<< 8) ||| c = (x <<< 8) ||| c := by
  rw [show DISK0 <<< 16 = 0#32 from rfl, BitVec.zero_or]

section

variable (hcyl : cylinder.toNat < 2 ^ 24) (hsec : (sector - 1).toNat < 256)

include hcyl hsec

/-- A block of the backing store comes into a page. -/
theorem runs_readBacking
    (h : RunsAlone S true ID (readWriteBacking cylinder sector DISK0 DISK_READBLK a) s (some ()) s') :
    s' = ({ s with cylinder := cylinder } : Phase3 β).setPage a (s.block cylinder 0 (sector - 1)) := by
  obtain ⟨s₁, hseek, htransfer⟩ := runs_readWriteBacking h
  obtain rfl := hseek.of_seek rfl DISKINT_ne rfl hcyl
  exact htransfer.of_read rfl DISKINT_ne rfl hsec (head_zero _ _)

/-- A page goes to its block of the backing store. -/
theorem runs_writeBacking
    (h : RunsAlone S true ID (readWriteBacking cylinder sector DISK0 DISK_WRITEBLK a) s (some ()) s') :
    s' = ({ s with cylinder := cylinder } : Phase3 β).setBlock cylinder 0 (sector - 1) (s.page a) := by
  obtain ⟨s₁, hseek, htransfer⟩ := runs_readWriteBacking h
  obtain rfl := hseek.of_seek rfl DISKINT_ne rfl hcyl
  exact htransfer.of_write rfl DISKINT_ne rfl hsec (head_zero _ _)

end

end

end Kaya
