import Kaya.Const
import Kaya.Links.Segment
import Mathlib.Data.Fintype.Basic

open Links

namespace Kaya

/-- An entry of the static `pcb_t` table. -/
abbrev Pid : Type := Fin MAXPROC

instance : LawfulBEq Pid := inferInstance

/-- An entry of the static `semd_t` table: `MAXPROC` descriptors and the two
dummy nodes behind them. -/
abbrev Sid : Type := Fin (MAXPROC + 2)

abbrev PcbPtr : Type := Ptr Pid
abbrev SemdPtr : Type := Ptr Sid

/-- A processor state, `state_t`. -/
structure State where
  s_asid : Word
  s_cause : Word
  s_status : Word
  s_pc : Word
  s_reg : Fin STATEREGNUM → Word

/-- The words of a `state_t`. -/
inductive Field where
  | s_asid
  | s_cause
  | s_status
  | s_pc
  | s_reg (i : Fin STATEREGNUM)
  deriving DecidableEq

def State.get (st : State) : Field → Word
  | .s_asid => st.s_asid
  | .s_cause => st.s_cause
  | .s_status => st.s_status
  | .s_pc => st.s_pc
  | .s_reg i => st.s_reg i

def State.set (st : State) (f : Field) (w : Word) : State :=
  match f with
  | .s_asid => { st with s_asid := w }
  | .s_cause => { st with s_cause := w }
  | .s_status => { st with s_status := w }
  | .s_pc => { st with s_pc := w }
  | .s_reg i => { st with s_reg := Function.update st.s_reg i w }

def State.zero : State := ⟨0, 0, 0, 0, fun _ => 0⟩

@[ext]
theorem State.ext_get {st st' : State} (h : ∀ f, st.get f = st'.get f) : st = st' := by
  cases st
  cases st'
  congr
  · exact h .s_asid
  · exact h .s_cause
  · exact h .s_status
  · exact h .s_pc
  · funext i
    exact h (.s_reg i)

@[simp] theorem State.get_set (st : State) (f g : Field) (w : Word) :
    (st.set f w).get g = if g = f then w else st.get g := by
  cases f <;> cases g <;> simp [State.get, State.set, Function.update_apply]

/-! Register names -/

abbrev s_v0 : Fin STATEREGNUM := 1
abbrev s_a0 : Fin STATEREGNUM := 3
abbrev s_a1 : Fin STATEREGNUM := 4
abbrev s_a2 : Fin STATEREGNUM := 5
abbrev s_a3 : Fin STATEREGNUM := 6
abbrev s_t9 : Fin STATEREGNUM := 24
abbrev s_sp : Fin STATEREGNUM := 26

/-- The position of a word in a `state_t`. -/
def Field.index : Field → Nat
  | .s_asid => 0
  | .s_cause => 1
  | .s_status => 2
  | .s_pc => 3
  | .s_reg i => 4 + i

/-- All words of a `state_t`, in the order in which `copyState` copies them. -/
def Field.all : List Field :=
  [.s_cause, .s_asid, .s_status, .s_pc] ++ (List.finRange STATEREGNUM).map .s_reg

theorem Field.mem_all (f : Field) : f ∈ Field.all := by
  cases f <;> simp [Field.all]

theorem Field.index_lt (f : Field) : f.index < 35 := by
  cases f with
  | s_reg i =>
    have hi : i.val < 31 := i.isLt
    simp only [Field.index]
    omega
  | _ => decide

/-- The address of a word of the `state_t` at address `a`. -/
def Field.addr (f : Field) (a : Word) : Word := a + BitVec.ofNat 32 (4 * f.index)

/-- The trap types of SYS5. -/
inductive TrapType where
  | TLBTRAP
  | PROGTRAP
  | SYSTRAP
  deriving DecidableEq, Repr

/-- The two columns of `pcb_states`. -/
inductive Section where
  | NEW
  | OLD
  deriving DecidableEq, Repr

/-- A device register, `device_t`; a terminal's receiver uses the first pair of
words and its transmitter the second. -/
structure Device where
  d_status : Word
  d_command : Word
  d_data0 : Word
  d_data1 : Word
  deriving DecidableEq, Repr

namespace Device

abbrev t_recv_status (d : Device) : Word := d.d_status
abbrev t_transm_status (d : Device) : Word := d.d_data0

end Device

/-- The areas in low memory where the processor stores the state of an
exception. -/
inductive OldArea where
  | SYSCALLOLDAREA
  | PGMTRAPOLDAREA
  | TBLMGMTOLDAREA
  | INTPOLDAREA
  deriving DecidableEq, Repr

/-- The `state_t`s the nucleus refers to: the old areas, the states saved in
pcbs, and states in the memory of processes. -/
inductive StateRef where
  | old (area : OldArea)
  | pcb_state (p : PcbPtr)
  | mem (a : Word)
  deriving DecidableEq

/-- The ways in which nucleus code stops without returning to its caller. -/
inductive Stop where
  /-- A state is loaded; control leaves the nucleus. -/
  | LDST (ref : StateRef) (st : State)
  /-- The processor waits for an interrupt. -/
  | WAIT
  | HALT
  | PANIC
  /-- The nucleus itself raises a program trap: a word that is not aligned or
  not installed was accessed. -/
  | trap
  /-- A loop is still running when its step bound is used up. -/
  | spin
  /-- The source gives the code no meaning here. -/
  | undefined

end Kaya
