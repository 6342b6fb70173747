import Kaya.Exec.Alone
import Kaya.Phase3.VmIOSupport

open Exec Prog

namespace Kaya

open Code

/-- What there is to a call that reads a line: the process, its buffer, and the statuses
with which its terminal receives, in order. -/
structure LineRequest where
  ID : Word
  addr : Word
  status : Nat → Word

namespace LineRequest

variable (r : LineRequest)

/-- The character that comes with a status. -/
def char (i : Nat) : BitVec 8 := BitVec.setWidth 8 ((r.status i &&& 0xFF00) >>> 8)

def Newline (i : Nat) : Prop := r.char i = 0x0A

/-- The status says that a character has been received. -/
def Receives (i : Nat) : Prop := r.status i &&& 0xFF = 5

instance (i : Nat) : Decidable (r.Newline i) := inferInstanceAs (Decidable (_ = _))

instance (i : Nat) : Decidable (r.Receives i) := inferInstanceAs (Decidable (_ = _))

/-- The command that makes the terminal receive a character. -/
def get : Command :=
  ⟨TERM0DEV + (r.ID - 1), none, RECVCHAR, false, BitVec.ofNat 32 TERMINT, r.ID - 1, READTERM⟩

/-- Memory when the first `k` characters have been stored. -/
def stored (mem : Word → BitVec 8) : Nat → Word → BitVec 8
  | 0 => mem
  | k + 1 => Function.update (stored mem k) (r.addr + BitVec.ofNat 32 k) (r.char k)

end LineRequest

/-- What a call leaves behind: memory, how many characters the terminal has received, the
semaphores on which a P and no V has been made, and the result for the caller. -/
structure Input where
  mem : Word → BitVec 8
  received : Nat
  held : List Sem
  v0 : Word

/-- What an operation of a call does. The device that is waited for is the one that has got
the command. -/
inductive Input.Acts (r : LineRequest) : (o : Op) → Input → o.Answer → Input → Prop where
  | passeren {w : Input} {s : Sem} : Acts r (.passeren s) w () { w with held := s :: w.held }
  | verhogen {w : Input} {s : Sem} : Acts r (.verhogen s) w () { w with held := w.held.erase s }
  | storeByte {w : Input} {a : Word} {c : BitVec 8} :
      Acts r (.storeByte a c) w () { w with mem := Function.update w.mem a c }
  | waitio {w : Input} {c : Command} : c.devNum = TERM0DEV + (r.ID - 1) →
      c.devNum = 8 * (c.line - 3) + c.device → c.command = RECVCHAR → c.transm = false →
      c.direction = READTERM →
      Acts r (.waitio c) w (r.status w.received) { w with received := w.received + 1 }
  | setOld {w : Input} {v : Word} : Acts r (.setOld r.ID (.s_reg s_v0) v) w () { w with v0 := v }

/-- With rounds enough for the line, the call returns (`some`), or it has stopped the
system (`none`). -/
def RunsLine (r : LineRequest) (mem : Word → BitVec 8) (v0 : Word) (x : Option Unit) (w : Input) :
    Prop :=
  ∃ n, (readTerminal n r.addr r.ID).Runs (Input.Acts r) (fun o => o = .panic) ⟨mem, 0, [], v0⟩ x w

/-- The line of `k` characters that comes next has been read: it stands in the buffer
without its end, nothing else has been written, and the result is its length. -/
structure LineRead (r : LineRequest) (mem : Word → BitVec 8) (w : Input) (k : Nat) : Prop where
  newline : r.Newline k
  before : ∀ j < k, ¬ r.Newline j
  received : w.received = k + 1
  line : ∀ j < k, w.mem (r.addr + BitVec.ofNat 32 j) = r.char j
  kept : ∀ a, (∀ j < k, a ≠ r.addr + BitVec.ofNat 32 j) → w.mem a = mem a
  released : w.held = []
  result : w.v0.toInt = k

/-- The call comes to an end, and has read a line when it does. -/
structure ReadsLine (r : LineRequest) (mem : Word → BitVec 8) (v0 : Word) : Prop where
  ends : ∃ x w, RunsLine r mem v0 x w
  right : ∀ x w, RunsLine r mem v0 x w → x = some () ∧ ∃ k, LineRead r mem w k

variable {r : LineRequest} {mem : Word → BitVec 8} {a v0 : Word} {n i j k : Nat} {held : List Sem}
  {x : Option Unit} {y : Option Word} {w : Input}

namespace LineRequest

/-- The code compares the whole word. -/
theorem newline_iff : (r.status i &&& 0xFF00) >>> 8 = 0x0A ↔ r.Newline i := by
  have hlt : ((r.status i &&& 0xFF00) >>> 8).toNat < 256 := by
    have hle : (r.status i).toNat &&& 0xFF00 ≤ 0xFF00 := Nat.and_le_right
    rw [BitVec.toNat_ushiftRight, BitVec.toNat_and, Nat.shiftRight_eq_div_pow]
    change ((r.status i).toNat &&& 0xFF00) / 2 ^ 8 < 256
    omega
  unfold Newline char
  constructor
  · intro h
    rw [h]
    decide
  · intro h
    have hnat := congrArg BitVec.toNat h
    rw [BitVec.toNat_setWidth, Nat.mod_eq_of_lt (by omega)] at hnat
    exact BitVec.eq_of_toNat_eq hnat

theorem stored_line (hk : k ≤ 2 ^ 32) (hj : j < k) :
    r.stored mem k (r.addr + BitVec.ofNat 32 j) = r.char j := by
  induction k with
  | zero => exact absurd hj (Nat.not_lt_zero j)
  | succ k ih =>
    rcases Nat.lt_succ_iff_lt_or_eq.mp hj with hlt | rfl
    · have hne : r.addr + BitVec.ofNat 32 j ≠ r.addr + BitVec.ofNat 32 k := by
        intro heq
        have hnat := congrArg BitVec.toNat (BitVec.add_right_inj _ |>.mp heq)
        simp only [BitVec.toNat_ofNat] at hnat
        omega
      rw [stored, Function.update_of_ne hne]
      exact ih (by omega) hlt
    · rw [stored, Function.update_self]

theorem stored_other (ha : ∀ j < k, a ≠ r.addr + BitVec.ofNat 32 j) : r.stored mem k a = mem a := by
  induction k with
  | zero => rfl
  | succ k ih =>
    rw [stored, Function.update_of_ne (ha k (Nat.lt_succ_self k))]
    exact ih fun j hj => ha j (Nat.lt_succ_of_lt hj)

end LineRequest

theorem runs_get {f : Word → Code Word} {w' : Input} :
    (waitio r.get >>= f).Runs (Input.Acts r) (fun o => o = .panic) w y w' ↔
      (f (r.status w.received)).Runs (Input.Acts r) (fun o => o = .panic)
        { w with received := w.received + 1 } y w' := by
  have hdev : TERM0DEV = 8 * (BitVec.ofNat 32 TERMINT - 3) := by decide
  constructor
  · intro h
    obtain ⟨_, _, ⟨⟩, h⟩ := (runs_perform_bind nofun).mp h
    exact h
  · intro h
    exact .call (.waitio rfl (congrArg (· + (r.ID - 1)) hdev) rfl rfl rfl) h

theorem runs_storeByte {c : BitVec 8} {f : Unit → Code Word} {w' : Input} :
    (storeByte a c >>= f).Runs (Input.Acts r) (fun o => o = .panic) w y w' ↔
      (f ()).Runs (Input.Acts r) (fun o => o = .panic)
        { w with mem := Function.update w.mem a c } y w' := by
  constructor
  · intro h
    obtain ⟨_, _, ⟨⟩, h⟩ := (runs_perform_bind nofun).mp h
    exact h
  · intro h
    exact .call .storeByte h

/-- The test behind each character: it is passed if the character has been received. -/
theorem runs_received {k : Unit → Code Word} {w' : Input} :
    (Prog.when (r.status i &&& 0xFF ≠ 5) panic >>= k).Runs (Input.Acts r) (fun o => o = .panic)
        w y w' ↔
      if r.Receives i then (k ()).Runs (Input.Acts r) (fun o => o = .panic) w y w'
      else y = none ∧ w' = w := by
  have hguard : (Prog.when (r.status i &&& 0xFF ≠ 5) panic >>= k).Runs (Input.Acts r)
      (fun o => o = .panic) w y w' ↔ _ := runs_guard Empty.elim rfl
  exact hguard.trans (ite_not _ _ _).to_iff

/-- One round: the end of the line ends the loop, any other character is stored; and the
system is stopped behind a character that has not been received. -/
theorem runs_readChars_succ :
    (readChars r.get (n + 1) (r.addr + BitVec.ofNat 32 i) (BitVec.ofNat 32 i)).Runs (Input.Acts r)
        (fun o => o = .panic) ⟨r.stored mem i, i, held, v0⟩ y w ↔
      if r.Newline i then
        if r.Receives i then y = some (BitVec.ofNat 32 i) ∧ w = ⟨r.stored mem i, i + 1, held, v0⟩
        else y = none ∧ w = ⟨r.stored mem i, i + 1, held, v0⟩
      else if r.Receives i then
        (readChars r.get n (r.addr + BitVec.ofNat 32 (i + 1)) (BitVec.ofNat 32 (i + 1))).Runs
          (Input.Acts r) (fun o => o = .panic) ⟨r.stored mem (i + 1), i + 1, held, v0⟩ y w
      else y = none ∧ w = ⟨r.stored mem (i + 1), i + 1, held, v0⟩ := by
  have hnext : BitVec.ofNat 32 i + 1 = BitVec.ofNat 32 (i + 1) := (BitVec.ofNat_add i 1).symm
  rw [readChars, runs_get]
  dsimp only
  by_cases hnew : r.Newline i
  · rw [if_pos hnew, if_pos (LineRequest.newline_iff.mpr hnew), runs_received]
    simp
  · rw [if_neg hnew, if_neg (LineRequest.newline_iff.not.mpr hnew), runs_storeByte, runs_received,
      BitVec.add_assoc, hnext]
    rfl

/-- The loop reaches the first character that ends it, with rounds enough, and only then. -/
theorem runs_readChars (hline : ∀ j < k, ¬ r.Newline j ∧ r.Receives j) (hi : i ≤ k)
    (hstop : r.Newline k ∨ ¬ r.Receives k) :
    (readChars r.get n (r.addr + BitVec.ofNat 32 i) (BitVec.ofNat 32 i)).Runs (Input.Acts r)
        (fun o => o = .panic) ⟨r.stored mem i, i, held, v0⟩ y w ↔
      k < i + n ∧ if r.Newline k then
        if r.Receives k then y = some (BitVec.ofNat 32 k) ∧ w = ⟨r.stored mem k, k + 1, held, v0⟩
        else y = none ∧ w = ⟨r.stored mem k, k + 1, held, v0⟩
      else y = none ∧ w = ⟨r.stored mem (k + 1), k + 1, held, v0⟩ := by
  induction n generalizing i with
  | zero =>
    refine iff_of_false (fun h => ?_) fun h => absurd h.1 (not_lt.mpr hi)
    exact absurd ((runs_unanswered Empty.elim).mp h).1 nofun
  | succ n ih =>
    rw [runs_readChars_succ]
    rcases hi.lt_or_eq with hlt | rfl
    · obtain ⟨hnew, hgood⟩ := hline i hlt
      rw [if_neg hnew, if_pos hgood, ih hlt, show i + 1 + n = i + (n + 1) by omega]
    · rw [and_iff_right (Nat.lt_add_of_pos_right n.succ_pos)]
      split
      · rfl
      · rw [if_neg (hstop.resolve_left ‹_›)]

/-- The loop does not end before the line does. -/
theorem not_runs_readChars (hline : ∀ j, ¬ r.Newline j ∧ r.Receives j) :
    ¬ (readChars r.get n (r.addr + BitVec.ofNat 32 i) (BitVec.ofNat 32 i)).Runs (Input.Acts r)
        (fun o => o = .panic) ⟨r.stored mem i, i, held, v0⟩ y w := by
  induction n generalizing i with
  | zero =>
    intro h
    exact absurd ((runs_unanswered Empty.elim).mp h).1 nofun
  | succ n ih =>
    rw [runs_readChars_succ, if_neg (hline i).1, if_pos (hline i).2]
    exact ih

/-- A call is its loop, between the P and the V on the mutex of the terminal. -/
theorem runs_readTerminal {s : Sem} (hs : s = .mutexArray (TERMREADSEM + (r.ID - 1))) :
    (readTerminal n r.addr r.ID).Runs (Input.Acts r) (fun o => o = .panic) ⟨mem, 0, [], v0⟩ x w ↔
      ∃ y w', (readChars r.get n (r.addr + BitVec.ofNat 32 0) (BitVec.ofNat 32 0)).Runs
          (Input.Acts r) (fun o => o = .panic) ⟨r.stored mem 0, 0, [s], v0⟩ y w' ∧
        match y with
        | some i => x = some () ∧ w = ⟨w'.mem, w'.received, w'.held.erase s, i⟩
        | none => x = none ∧ w = w' := by
  subst hs
  rw [BitVec.add_zero r.addr]
  constructor
  · intro h
    obtain ⟨_, _, ⟨⟩, h⟩ := (runs_perform_bind nofun).mp h
    rcases h.of_bind with ⟨i, w', hloop, h⟩ | ⟨rfl, hloop⟩
    · refine ⟨some i, w', hloop, ?_⟩
      obtain ⟨_, _, ⟨⟩, h⟩ := (runs_perform_bind nofun).mp h
      cases h with
      | call hact h =>
        cases hact
        exact runs_ret.mp h
      | stop hends => exact absurd hends nofun
    · exact ⟨none, w, hloop, rfl, rfl⟩
  · rintro ⟨y, w', hloop, hx⟩
    refine .call .passeren ?_
    cases y with
    | some i =>
      obtain ⟨rfl, rfl⟩ := hx
      have hrest : (do
          setOld r.ID (.s_reg s_v0) i
          verhogen (.mutexArray (TERMREADSEM + (r.ID - 1))) : Code Unit).Runs (Input.Acts r)
          (fun o => o = .panic) w' (some ()) _ := .call .setOld (.call .verhogen .ret)
      exact hloop.bind hrest
    | none =>
      obtain ⟨rfl, rfl⟩ := hx
      exact hloop.bind_none

/-- A call reads up to the end of the line, or it stops the system before that, at the
first character that has not been received. -/
theorem runsLine_iff (hline : ∀ j < k, ¬ r.Newline j ∧ r.Receives j)
    (hstop : r.Newline k ∨ ¬ r.Receives k) : RunsLine r mem v0 x w ↔
      if r.Newline k ∧ r.Receives k then
        x = some () ∧ w = ⟨r.stored mem k, k + 1, [], BitVec.ofNat 32 k⟩
      else x = none ∧ w = ⟨r.stored mem (if r.Newline k then k else k + 1), k + 1,
        [.mutexArray (TERMREADSEM + (r.ID - 1))], v0⟩ := by
  have hruns : RunsLine r mem v0 x w ↔ ∃ n, _ := exists_congr fun n => runs_readTerminal rfl
  rw [hruns]
  simp only [runs_readChars hline (Nat.zero_le k) hstop]
  have hrounds : k < 0 + (k + 1) := by omega
  by_cases hnew : r.Newline k
  · by_cases hgood : r.Receives k
    · simp only [if_pos hnew, if_pos hgood, if_pos (And.intro hnew hgood)]
      constructor
      · rintro ⟨_, _, _, ⟨-, rfl, rfl⟩, hx⟩
        simpa using hx
      · intro hx
        exact ⟨k + 1, _, _, ⟨hrounds, rfl, rfl⟩, by simpa using hx⟩
    · simp only [if_pos hnew, if_neg hgood, if_neg fun h : _ ∧ r.Receives k => hgood h.2]
      constructor
      · rintro ⟨_, _, _, ⟨-, rfl, rfl⟩, hx⟩
        exact hx
      · intro hx
        exact ⟨k + 1, _, _, ⟨hrounds, rfl, rfl⟩, hx⟩
  · simp only [if_neg hnew, if_neg fun h : r.Newline k ∧ _ => hnew h.1]
    constructor
    · rintro ⟨_, _, _, ⟨-, rfl, rfl⟩, hx⟩
      exact hx
    · intro hx
      exact ⟨k + 1, _, _, ⟨hrounds, rfl, rfl⟩, hx⟩

theorem not_runsLine (hline : ∀ j, ¬ r.Newline j ∧ r.Receives j) : ¬ RunsLine r mem v0 x w := by
  rintro ⟨n, h⟩
  obtain ⟨_, _, hloop, -⟩ := (runs_readTerminal rfl).mp h
  exact not_runs_readChars hline hloop

/-- What there is once the loop has ended is the line, unless its length is no `int`. -/
theorem lineRead_iff (hnew : r.Newline k) (hline : ∀ j < k, ¬ r.Newline j) {l : Nat} :
    LineRead r mem ⟨r.stored mem k, k + 1, [], BitVec.ofNat 32 k⟩ l ↔ l = k ∧ k < 2 ^ 31 := by
  constructor
  · intro h
    obtain rfl : l = k := Nat.succ.inj h.received.symm
    have hresult : (BitVec.ofNat 32 l).toInt = l := h.result
    have hlt := BitVec.toInt_lt (x := BitVec.ofNat 32 l)
    exact ⟨rfl, by omega⟩
  · rintro ⟨rfl, hlt⟩
    exact {
      newline := hnew
      before := hline
      received := rfl
      line := fun j hj => LineRequest.stored_line (by omega) hj
      kept := fun a ha => LineRequest.stored_other ha
      released := rfl
      result := by
        show (BitVec.ofNat 32 l).toInt = l
        rw [BitVec.toInt_eq_toNat_of_lt] <;> simp only [BitVec.toNat_ofNat] <;> omega }

/-- A call reads a line if and only if the line ends within the lengths of an `int` and the
terminal receives each of its characters, the end of the line included. -/
theorem readsLine_iff (r : LineRequest) (mem : Word → BitVec 8) (v0 : Word) : ReadsLine r mem v0 ↔
    ∃ k < 2 ^ 31, r.Newline k ∧ (∀ j < k, ¬ r.Newline j) ∧ ∀ j ≤ k, r.Receives j := by
  by_cases hends : ∃ k, r.Newline k ∨ ¬ r.Receives k
  · have hstop := Nat.find_spec hends
    have hline : ∀ j < Nat.find hends, ¬ r.Newline j ∧ r.Receives j := by
      intro j hj
      simpa using Nat.find_min hends hj
    generalize Nat.find hends = k at hstop hline
    have hruns : ∀ {x w}, RunsLine r mem v0 x w ↔ _ := runsLine_iff hline hstop
    constructor
    · intro h
      obtain ⟨x, w, hrun⟩ := h.ends
      obtain ⟨rfl, l, hread⟩ := h.right x w hrun
      have hend := hruns.mp hrun
      split at hend
      · rename_i hgood
        obtain ⟨-, rfl⟩ := hend
        obtain ⟨-, hlt⟩ := (lineRead_iff hgood.1 fun j hj => (hline j hj).1).mp hread
        refine ⟨k, hlt, hgood.1, fun j hj => (hline j hj).1, fun j hj => ?_⟩
        rcases hj.lt_or_eq with hj | rfl
        · exact (hline j hj).2
        · exact hgood.2
      · exact absurd hend.1 nofun
    · rintro ⟨l, hlt, hnew, hbefore, hgood⟩
      -- the line ends where the loop does
      obtain rfl : l = k := by
        rcases lt_trichotomy l k with hl | heq | hl
        · exact absurd hnew (hline l hl).1
        · exact heq
        · exact (hstop.resolve_left (hbefore k hl) (hgood k hl.le)).elim
      have hread : ∀ {x w}, RunsLine r mem v0 x w ↔ _ :=
        hruns.trans (by rw [if_pos ⟨hnew, hgood l le_rfl⟩])
      refine ⟨⟨_, _, hread.mpr ⟨rfl, rfl⟩⟩, fun x w hrun => ?_⟩
      obtain ⟨rfl, rfl⟩ := hread.mp hrun
      exact ⟨rfl, l, (lineRead_iff hnew hbefore).mpr ⟨rfl, hlt⟩⟩
  · push Not at hends
    refine iff_of_false (fun h => ?_) fun ⟨k, _, hnew, _⟩ => (hends k).1 hnew
    obtain ⟨x, w, hrun⟩ := h.ends
    exact not_runsLine hends hrun

/-- A line of one character. -/
theorem readsLine_iff_small :
    ReadsLine ⟨1, SEG2, fun i => if i = 0 then 0x4105 else 0x0A05⟩ (fun _ => 0) 0 := by
  refine (readsLine_iff _ _ _).mpr ⟨1, by decide, by decide, fun j hj => ?_, fun j hj => ?_⟩
  · obtain rfl := Nat.lt_one_iff.mp hj
    decide
  · rcases Nat.le_one_iff_eq_zero_or_eq_one.mp hj with rfl | rfl <;> decide

end Kaya
