import Kaya.Exec.Alone
import Kaya.Phase3.VmIOSupport

open Exec Prog

namespace Kaya

open Code

/-- The calls that send characters to a device. -/
inductive CharCall where
  | writePrinter
  | writeTerminal

namespace CharCall

/-- The arguments are the buffer, its length and the process. -/
def code : CharCall → Word → Word → Word → Code Unit
  | .writePrinter => Kaya.writePrinter
  | .writeTerminal => Kaya.writeTerminal

def devNum (ID : Word) : CharCall → Word
  | .writePrinter => PRINTDEV + (ID - 1)
  | .writeTerminal => TERM0DEV + (ID - 1)

/-- The mutex of the device. -/
def mutex (ID : Word) : CharCall → Word
  | .writePrinter => PRINTDEV + (ID - 1)
  | .writeTerminal => TERMSEMSTART + (ID - 1)

/-- The command for a character. -/
def put (ID : Word) : CharCall → BitVec 8 → Command
  | .writePrinter, c => ⟨PRINTDEV + (ID - 1), some (c.signExtend 32), PRINTCHAR, false,
      BitVec.ofNat 32 PRNTINT, ID - 1, 0⟩
  | .writeTerminal, c => ⟨TERM0DEV + (ID - 1), none, TRANSCHAR ||| (c.signExtend 32 <<< 8), true,
      BitVec.ofNat 32 TERMINT, ID - 1, WRITETERM⟩

/-- The completion status of a character that has been sent. -/
def success : CharCall → Word
  | .writePrinter => READY
  | .writeTerminal => TRANSMITCHAR

/-- The character that a command makes the device send. -/
def charOf (c : Command) : CharCall → Option (BitVec 8)
  | .writePrinter =>
    if c.command = PRINTCHAR ∧ c.transm = false then c.d_data0.map (BitVec.setWidth 8) else none
  | .writeTerminal =>
    if c.command &&& 0xFF = TRANSCHAR ∧ c.transm = true then some (BitVec.setWidth 8 (c.command >>> 8))
    else none

/-- The status says that the character has been sent. -/
def Succeeds (call : CharCall) (status : Word) : Prop := status &&& 0xFF = call.success

instance (call : CharCall) (status : Word) : Decidable (call.Succeeds status) :=
  inferInstanceAs (Decidable (_ = _))

end CharCall

/-- What a call leaves behind: the characters sent, the semaphores on which a P and no
V has been made, and the result for the caller. -/
structure Output where
  sent : List (BitVec 8)
  held : List Sem
  v0 : Word

/-- What an operation of a call of the process `ID` does, where `mem` is the memory and
`status` the completion statuses in order. -/
inductive Output.Acts (call : CharCall) (ID : Word) (mem : Word → BitVec 8) (status : Nat → Word) :
    (o : Op) → Output → o.Answer → Output → Prop where
  | passeren {w : Output} {s : Sem} : Acts call ID mem status (.passeren s) w ()
      { w with held := s :: w.held }
  | verhogen {w : Output} {s : Sem} : Acts call ID mem status (.verhogen s) w ()
      { w with held := w.held.erase s }
  | loadByte {w : Output} {a : Word} : Acts call ID mem status (.loadByte a) w (mem a) w
  | waitio {w : Output} {c : Command} {char : BitVec 8} : c.devNum = call.devNum ID →
      c.devNum = 8 * (c.line - 3) + c.device → call.charOf c = some char →
      Acts call ID mem status (.waitio c) w (status w.sent.length) { w with sent := w.sent ++ [char] }
  | setOld {w : Output} {v : Word} : Acts call ID mem status (.setOld ID (.s_reg s_v0) v) w ()
      { w with v0 := v }

/-- The characters from an address on. -/
def buffer (mem : Word → BitVec 8) (virtAddr : Word) : Nat → List (BitVec 8)
  | 0 => []
  | n + 1 => mem virtAddr :: buffer mem (virtAddr + 1) n

/-- What there is to a call: the process, its memory, the completion statuses in order
and the arguments. -/
structure CharRequest where
  ID : Word
  mem : Word → BitVec 8
  status : Nat → Word
  virtAddr : Word
  len : Word

/-- The call returns (`some`), or it has stopped the system (`none`). -/
abbrev RunsChars (call : CharCall) (r : CharRequest) (v0 : Word) (x : Option Unit) (w : Output) :
    Prop :=
  (call.code r.virtAddr r.len r.ID).Runs (Output.Acts call r.ID r.mem r.status) (fun o => o = .panic)
    ⟨[], [], v0⟩ x w

/-- How a call may end: every character has been sent, or they have up to one that
failed, and nothing is held. -/
inductive Sends (call : CharCall) (r : CharRequest) : Output → Prop where
  | all : (∀ i < r.len.toInt.toNat, call.Succeeds (r.status i)) →
      Sends call r ⟨buffer r.mem r.virtAddr r.len.toInt.toNat, [], r.len⟩
  | failed {v0 : Word} {i : Nat} : i < r.len.toInt.toNat → ¬ call.Succeeds (r.status i) →
      (∀ j < i, call.Succeeds (r.status j)) → v0.toInt < 0 →
      Sends call r ⟨buffer r.mem r.virtAddr (i + 1), [], v0⟩

/-- The call comes to an end, and returns to its caller. -/
structure Transmits (call : CharCall) (r : CharRequest) (v0 : Word) : Prop where
  ends : ∃ x w, RunsChars call r v0 x w
  right : ∀ x w, RunsChars call r v0 x w → x = some () ∧ Sends call r w

variable {call : CharCall} {r : CharRequest} {ID virtAddr v0 : Word} {mem : Word → BitVec 8}
  {status : Nat → Word} {n i : Nat} {x : Option Unit} {w w' : Output}

/-- Both calls are the same loop. -/
theorem CharCall.code_eq (call : CharCall) (virtAddr len ID : Word) : call.code virtAddr len ID = (do
    passeren (.mutexArray (call.mutex ID))
    writeChars (call.put ID) call.success virtAddr len.toInt.toNat
    setOld ID (.s_reg s_v0) (BitVec.ofNat 32 len.toInt.toNat)
    verhogen (.mutexArray (call.mutex ID))) := by
  cases call with
  | writePrinter => rfl
  | writeTerminal => rfl

/-- A command goes to the device that is waited for. -/
theorem CharCall.put_devNum (call : CharCall) (ID : Word) (char : BitVec 8) :
    (call.put ID char).devNum = call.devNum ID ∧ (call.put ID char).devNum =
      8 * ((call.put ID char).line - 3) + (call.put ID char).device := by
  cases call with
  | writePrinter =>
    have hdev : PRINTDEV = 8 * (BitVec.ofNat 32 PRNTINT - 3) := by decide
    exact ⟨rfl, congrArg (· + (ID - 1)) hdev⟩
  | writeTerminal =>
    have hdev : TERM0DEV = 8 * (BitVec.ofNat 32 TERMINT - 3) := by decide
    exact ⟨rfl, congrArg (· + (ID - 1)) hdev⟩

/-- A command sends its character, even though that is extended by its sign. -/
theorem CharCall.charOf_put (call : CharCall) (ID : Word) (char : BitVec 8) :
    call.charOf (call.put ID char) = some char := by
  cases call with
  | writePrinter =>
    have hchar : ∀ c : BitVec 8, BitVec.setWidth 8 (c.signExtend 32) = c := by decide +kernel
    simp [charOf, put, hchar]
  | writeTerminal =>
    have hcommand : ∀ c : BitVec 8, (TRANSCHAR ||| c.signExtend 32 <<< 8) &&& 0xFF = TRANSCHAR := by
      decide +kernel
    have hchar : ∀ c : BitVec 8,
        BitVec.setWidth 8 ((TRANSCHAR ||| c.signExtend 32 <<< 8) >>> 8) = c := by decide +kernel
    dsimp only [charOf, put]
    rw [if_pos ⟨hcommand char, rfl⟩, hchar]

/-- One round sends one character, and stops the system unless that succeeds. -/
theorem runs_writeChars_succ :
    (writeChars (call.put ID) call.success virtAddr (n + 1)).Runs (Output.Acts call ID mem status)
        (fun o => o = .panic) w x w' ↔
      if call.Succeeds (status w.sent.length) then
        (writeChars (call.put ID) call.success (virtAddr + 1) n).Runs (Output.Acts call ID mem status)
          (fun o => o = .panic) { w with sent := w.sent ++ [mem virtAddr] } x w'
      else x = none ∧ w' = { w with sent := w.sent ++ [mem virtAddr] } := by
  obtain ⟨hdev, hline⟩ := call.put_devNum ID (mem virtAddr)
  have hchar := call.charOf_put ID (mem virtAddr)
  have hguard : (Prog.when (status w.sent.length &&& 0xFF ≠ call.success) panic >>= fun _ =>
      writeChars (call.put ID) call.success (virtAddr + 1) n).Runs (Output.Acts call ID mem status)
      (fun o => o = .panic) { w with sent := w.sent ++ [mem virtAddr] } x w' ↔ _ :=
    runs_guard Empty.elim rfl
  rw [writeChars]
  constructor
  · intro h
    obtain ⟨_, _, ⟨⟩, h⟩ := (runs_perform_bind nofun).mp h
    obtain ⟨_, _, hact, h⟩ := (runs_perform_bind nofun).mp h
    cases hact with
    | waitio _ _ hsent =>
      obtain rfl := Option.some.inj (hsent.symm.trans hchar)
      exact (ite_not _ _ _).mp (hguard.mp h)
  · intro h
    refine .call .loadByte (.call (.waitio hdev hline hchar) ?_)
    exact hguard.mpr ((ite_not _ _ _).mpr h)

/-- The loop runs to its end if every character is sent, and else stops the system at the
first one that is not. -/
theorem runs_writeChars (hgood : ∀ j < i, call.Succeeds (status (w.sent.length + j))) (hi : i ≤ n)
    (hbad : i < n → ¬ call.Succeeds (status (w.sent.length + i))) :
    (writeChars (call.put ID) call.success virtAddr n).Runs (Output.Acts call ID mem status)
        (fun o => o = .panic) w x w' ↔
      if i < n then x = none ∧ w' = { w with sent := w.sent ++ buffer mem virtAddr (i + 1) }
      else x = some () ∧ w' = { w with sent := w.sent ++ buffer mem virtAddr n } := by
  induction n generalizing virtAddr w i with
  | zero => simp [writeChars, buffer]
  | succ n ih =>
    rw [runs_writeChars_succ]
    cases i with
    | zero => simpa [buffer] using fun hsucc => absurd hsucc (hbad (Nat.succ_pos n))
    | succ i =>
      have hnext : ∀ j, w.sent.length + (j + 1) = (w.sent ++ [mem virtAddr]).length + j := by
        intro j
        rw [List.length_append, List.length_singleton]
        omega
      have hfirst : call.Succeeds (status w.sent.length) := hgood 0 (Nat.succ_pos i)
      rw [if_pos hfirst, ih (i := i) (w := { w with sent := w.sent ++ [mem virtAddr] })]
      · simp [buffer]
      · intro j hj
        rw [← hnext]
        exact hgood (j + 1) (Nat.succ_lt_succ hj)
      · exact Nat.le_of_succ_le_succ hi
      · intro hlt
        rw [← hnext]
        exact hbad (Nat.succ_lt_succ hlt)

theorem Output.Acts.release {s : Sem} {sent : List (BitVec 8)} :
    Output.Acts call ID mem status (.verhogen s) ⟨sent, [s], v0⟩ () ⟨sent, [], v0⟩ := by
  have hrelease : Output.Acts call ID mem status (.verhogen s) ⟨sent, [s], v0⟩ ()
    ⟨sent, [s].erase s, v0⟩ := .verhogen
  rwa [List.erase_cons_head] at hrelease

/-- A call returns if every character is sent; at the first one that is not it stops the
system, and holds the mutex of the device. -/
theorem runsChars_iff (hgood : ∀ j < i, call.Succeeds (r.status j)) (hi : i ≤ r.len.toInt.toNat)
    (hbad : i < r.len.toInt.toNat → ¬ call.Succeeds (r.status i)) :
    RunsChars call r v0 x w ↔
      if i < r.len.toInt.toNat then x = none ∧
        w = ⟨buffer r.mem r.virtAddr (i + 1), [.mutexArray (call.mutex r.ID)], v0⟩
      else x = some () ∧
        w = ⟨buffer r.mem r.virtAddr r.len.toInt.toNat, [], BitVec.ofNat 32 r.len.toInt.toNat⟩ := by
  have hloop : ∀ {x w}, (writeChars (call.put r.ID) call.success r.virtAddr r.len.toInt.toNat).Runs
      (Output.Acts call r.ID r.mem r.status) (fun o => o = .panic)
      ⟨[], [.mutexArray (call.mutex r.ID)], v0⟩ x w ↔ _ :=
    runs_writeChars (i := i) (by simpa using hgood) hi (by simpa using hbad)
  rw [RunsChars, CharCall.code_eq]
  constructor
  · intro h
    obtain ⟨_, _, ⟨⟩, h⟩ := (runs_perform_bind nofun).mp h
    rcases h.of_bind with ⟨_, _, hrun, h⟩ | ⟨rfl, hrun⟩
    · have hend := hloop.mp hrun
      split at hend
      · exact absurd hend.1 nofun
      · obtain ⟨-, rfl⟩ := hend
        rw [if_neg ‹_›]
        obtain ⟨_, _, ⟨⟩, h⟩ := (runs_perform_bind nofun).mp h
        cases h with
        | call hact h =>
          cases hact
          obtain ⟨rfl, rfl⟩ := runs_ret.mp h
          simp
        | stop hends => exact absurd hends nofun
    · have hend := hloop.mp hrun
      split at hend
      · rw [if_pos ‹_›]
        exact hend
      · exact absurd hend.1 nofun
  · intro h
    refine .call .passeren ?_
    split at h
    · obtain ⟨rfl, rfl⟩ := h
      have hrun := (hloop (x := none)).mpr (by rw [if_pos ‹_›]; exact ⟨rfl, rfl⟩)
      exact hrun.bind_none
    · obtain ⟨rfl, rfl⟩ := h
      have hrun := (hloop (x := some ())).mpr (by rw [if_neg ‹_›]; exact ⟨rfl, rfl⟩)
      have hrest : (do
          setOld r.ID (.s_reg s_v0) (BitVec.ofNat 32 r.len.toInt.toNat)
          verhogen (.mutexArray (call.mutex r.ID)) : Code Unit).Runs
          (Output.Acts call r.ID r.mem r.status) (fun o => o = .panic)
          ⟨buffer r.mem r.virtAddr r.len.toInt.toNat, [.mutexArray (call.mutex r.ID)], v0⟩ (some ())
          ⟨buffer r.mem r.virtAddr r.len.toInt.toNat, [], BitVec.ofNat 32 r.len.toInt.toNat⟩ :=
        .call .setOld (.call .release .ret)
      exact hrun.bind hrest

theorem Sends.v0_eq (h : Sends call r w)
    (hall : ∀ i < r.len.toInt.toNat, call.Succeeds (r.status i)) : w.v0 = r.len := by
  cases h with
  | all => rfl
  | failed hi hbad => exact absurd (hall _ hi) hbad

theorem ofNat_toNat_toInt {len : Word} : BitVec.ofNat 32 len.toInt.toNat = len ↔ 0 ≤ len.toInt := by
  constructor
  · intro heq
    by_contra hneg
    rw [Int.toNat_of_nonpos (Int.le_of_lt (not_le.mp hneg))] at heq
    exact hneg (by rw [← heq]; decide)
  · intro hpos
    rw [← BitVec.ofInt_natCast, Int.toNat_of_nonneg hpos, BitVec.ofInt_toInt]

/-- A call does what it is for if and only if its length is not negative and every
character is sent. -/
theorem transmits_iff (call : CharCall) (r : CharRequest) (v0 : Word) : Transmits call r v0 ↔
    0 ≤ r.len.toInt ∧ ∀ i < r.len.toInt.toNat, call.Succeeds (r.status i) := by
  by_cases hall : ∀ i < r.len.toInt.toNat, call.Succeeds (r.status i)
  · have hruns : ∀ {x w}, RunsChars call r v0 x w ↔ x = some () ∧
        w = ⟨buffer r.mem r.virtAddr r.len.toInt.toNat, [], BitVec.ofNat 32 r.len.toInt.toNat⟩ := by
      intro x w
      rw [runsChars_iff hall le_rfl fun hlt => absurd hlt (lt_irrefl _), if_neg (lt_irrefl _)]
    rw [and_iff_left hall, ← ofNat_toNat_toInt]
    constructor
    · intro h
      obtain ⟨-, hsends⟩ := h.right _ _ (hruns.mpr ⟨rfl, rfl⟩)
      exact hsends.v0_eq hall
    · intro hlen
      refine ⟨⟨_, _, hruns.mpr ⟨rfl, rfl⟩⟩, fun x w hrun => ?_⟩
      obtain ⟨rfl, rfl⟩ := hruns.mp hrun
      rw [hlen]
      exact ⟨rfl, .all hall⟩
  · refine iff_of_false (fun h => ?_) fun h => hall h.2
    push Not at hall
    obtain ⟨hi, hbad⟩ := Nat.find_spec hall
    have hgood : ∀ j < Nat.find hall, call.Succeeds (r.status j) := by
      intro j hj
      by_contra hfails
      exact Nat.find_min hall hj ⟨lt_trans hj hi, hfails⟩
    obtain ⟨x, w, hrun⟩ := h.ends
    have hend := (runsChars_iff hgood hi.le fun _ => hbad).mp hrun
    rw [if_pos hi] at hend
    exact absurd ((h.right x w hrun).1.symm.trans hend.1) nofun

/-- The printer answers that the character has not been printed. -/
theorem not_always_transmits : ¬ ∀ (call : CharCall) (r : CharRequest) (v0 : Word),
    Transmits call r v0 := by
  intro hall
  have h := hall .writePrinter ⟨1, fun _ => 0x41, fun _ => 4, 0x80000000, 1⟩ 0
  have hlen : (1 : Word).toInt.toNat = 1 := by decide
  have hbad : ¬ CharCall.writePrinter.Succeeds 4 := by decide
  obtain ⟨x, w, hrun⟩ := h.ends
  have hend := (runsChars_iff (i := 0) (fun _ hj => absurd hj (Nat.not_lt_zero _)) (Nat.zero_le _)
    fun _ => hbad).mp hrun
  rw [if_pos (by decide)] at hend
  exact absurd ((h.right x w hrun).1.symm.trans hend.1) nofun

end Kaya
