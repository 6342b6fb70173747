import Kaya.Exec.System
import Kaya.Phase3.Pager

open Exec Prog

namespace Kaya

open Phase3

/-- Processes that use user memory: what they share, the page faults that have not
been served, and the processes that have ended. -/
structure Paging (β : Type) where
  shared : Phase3 β
  pending : Word → Option State
  ended : Word → Bool

inductive PagingEvent (β : Type) where
  /-- A process accesses a page that is not in a frame. -/
  | fault (ID : Word) (st : State)
  /-- The fault of a process is served; the disk may be `ready` after every command. -/
  | serve (ID : Word) (ready : Bool)
  /-- A process stores to a page: its new contents. -/
  | store (ID a : Word) (x : β)
  | terminate (ID : Word)

variable {β : Type}

/-- The entry has `VALID` set. -/
def Phase3.IsValid (s : Phase3 β) (p : PtePtr) : Prop := s.entryLO p &&& VALID = VALID

instance (s : Phase3 β) (p : PtePtr) : Decidable (s.IsValid p) := inferInstanceAs (Decidable (_ = _))

/-- The process executes its own instructions. -/
structure Paging.CanRun (S : Setup) (c : Paging β) (ID : Word) : Prop where
  process : S.IsProcess ID
  live : c.ended ID = false
  resident : c.pending ID = none

/-- What happens between two states outside the critical section of the pager. -/
inductive Paging.Step (S : Setup) : Paging β → PagingEvent β → Paging β → Prop where
  | fault {c : Paging β} {ID : Word} {st : State} : c.CanRun S ID → MissingPage st →
      SEG2 ≤ st.s_asid → ¬ c.shared.IsValid (pteOf ID st.s_asid) →
      Step S c (.fault ID st) { c with pending := Function.update c.pending ID (some st) }
  | serve {c : Paging β} {ID : Word} {st : State} {ready : Bool} {s' : Phase3 β} :
      c.pending ID = some st → RunsAlone S ready ID (vmMemHandler S st ID) c.shared (some ()) s' →
      Step S c (.serve ID ready)
        { c with shared := s', pending := Function.update c.pending ID none }
  | store {c : Paging β} {ID a : Word} {x : β} : c.CanRun S ID → SEG2 ≤ a → c.shared.Mapped ID a →
      Step S c (.store ID a x) { c with shared := c.shared.setPage (c.shared.pageAt ID a) x }
  | terminate {c : Paging β} {ID : Word} {ready : Bool} {s' : Phase3 β} : c.CanRun S ID →
      RunsAlone S ready ID (meIRL S ID) c.shared none s' →
      Step S c (.terminate ID)
        { c with shared := s', ended := Function.update c.ended ID true }

/-- All frames are free and no page is mapped. -/
structure Paging.Cold (S : Setup) (c : Paging β) : Prop where
  frames : ∀ i < S.SWAPSIZE, ¬ c.shared.Occupied i
  entries : ∀ p, ¬ c.shared.IsValid p
  pending : ∀ ID, c.pending ID = none

/-- Page faults, accesses and ends of processes, one after the other. -/
def pagingSystem (β : Type) (S : Setup) : System (Paging β) (PagingEvent β) where
  init := Paging.Cold S
  step := Paging.Step S

/-- The frame of an entry. -/
def frameNumber (entryLO : Word) : Word := entryLO &&& 0xFFFFF000

variable {S : Setup} {i : Nat} {a : Word}

theorem swapAddress_page : (swapAddress S i).toNat % 4096 = 0 := by
  have htop := S.RAMTOP_page
  simp only [swapAddress, SWAPPOOL, PAGESIZE, BitVec.toNat_add, BitVec.toNat_sub,
    BitVec.toNat_ofNat] at htop ⊢
  omega

theorem swapAddress_low : swapAddress S i &&& 0xFFF = 0#32 := by
  apply BitVec.eq_of_toNat_eq
  rw [BitVec.toNat_and]
  change _ &&& (2 ^ 12 - 1) = 0
  rw [Nat.and_two_pow_sub_one_eq_mod]
  exact swapAddress_page

/-- The frame of an entry that consists of the address of a page and flags. -/
theorem frameNumber_or {x c : Word} (hx : x &&& 0xFFF = 0#32) (hc : c &&& 0xFFFFF000 = 0#32) :
    frameNumber (x ||| c) = x := by
  have hall : x = x &&& (0xFFF ||| 0xFFFFF000) := by
    rw [show (0xFFF ||| 0xFFFFF000 : Word) = BitVec.allOnes 32 from rfl, BitVec.and_allOnes]
  rw [BitVec.and_or_distrib_left, hx, BitVec.zero_or] at hall
  rw [frameNumber, BitVec.and_or_distrib_right, hc, BitVec.or_zero]
  exact hall.symm

theorem valid_or {x c : Word} (hx : x &&& 0xFFF = 0#32) (hc : c &&& VALID = VALID) :
    (x ||| c) &&& VALID = VALID := by
  have hbit : x &&& VALID = 0#32 := by
    rw [show VALID = 0xFFF &&& VALID from rfl, ← BitVec.and_assoc, hx, BitVec.zero_and]
  rw [BitVec.and_or_distrib_right, hbit, hc, BitVec.zero_or]

theorem frameNumber_frameEntry : frameNumber (frameEntry S i a) = swapAddress S i := by
  unfold frameEntry
  split
  · rw [BitVec.or_assoc, BitVec.or_assoc]
    exact frameNumber_or swapAddress_low rfl
  · rw [BitVec.or_assoc]
    exact frameNumber_or swapAddress_low rfl

theorem valid_frameEntry : frameEntry S i a &&& VALID = VALID := by
  unfold frameEntry
  split
  · rw [BitVec.or_assoc, BitVec.or_assoc]
    exact valid_or swapAddress_low rfl
  · rw [BitVec.or_assoc]
    exact valid_or swapAddress_low rfl

end Kaya
