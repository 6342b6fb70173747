import Kaya.Phase3.Calls
import Kaya.Phase3.Processes

open Exec Prog

namespace Kaya

open Code

/-- The calls with a disk number among their arguments. -/
def IsDiskCall (call : Word) : Prop := call = DISK_PUT ∨ call = DISK_GET

/-- The calls on semaphores in the shared segment. -/
def IsSemCall (call : Word) : Prop := call = VSEMVIRT ∨ call = PSEMVIRT

/-- The calls with a buffer and its length among their arguments. -/
def IsWriteCall (call : Word) : Prop := call = WRITETERMINAL ∨ call = WRITEPRINTER

instance (call : Word) : Decidable (IsDiskCall call) := inferInstanceAs (Decidable (_ ∨ _))

instance (call : Word) : Decidable (IsSemCall call) := inferInstanceAs (Decidable (_ ∨ _))

/-- The disks that user processes can name. -/
def IsDisk (d : Word) : Prop := 1 ≤ d ∧ d ≤ 7

/-- The page that a disk transfers to and from. -/
def diskBuffer (d : Word) : Word := OSCODEEND + d * BitVec.ofNat 32 PAGESIZE

/-- A word that a call may access for its caller. -/
def IsolatedWord (call a : Word) : Prop :=
  (IsSemCall call → SEG3 ≤ a) ∧
    (¬ IsSemCall call → SEG2 ≤ a ∨
      ∃ d, IsDisk d ∧ diskBuffer d ≤ a ∧ a < diskBuffer d + BitVec.ofNat 32 PAGESIZE)

/-- What the arguments of a call may lead to: accesses in user space, mutexes, registers and
buffers of the disks 1 to 7, and the private semaphores of the caller and, for a V, of a user
process. Nothing else that the handler does depends on them. -/
def Isolated (S : Setup) (ID call : Word) : Op → Prop
  | .loadWord a => IsolatedWord call a
  | .storeWord a _ => IsolatedWord call a
  | .loadByte a => SEG2 ≤ a
  | .storeByte a _ => SEG2 ≤ a
  | .passeren (.mutexArray i) => IsDiskCall call → IsDisk i
  | .passeren (.uProc_semAdd k) => k = ID
  | .verhogen (.mutexArray i) => IsDiskCall call → IsDisk i
  | .verhogen (.uProc_semAdd k) => S.IsProcess k
  | .waitio c => IsDiskCall call → IsDisk c.devNum ∧ ∀ a, c.d_data0 = some a → a = diskBuffer c.devNum
  | _ => True

/-- How `vmSysHandler` begins: it reads the number of the call and its arguments. -/
def arguments (ID call a1 a2 a3 : Word) : List ((o : Op) × o.Answer) :=
  [⟨.getOld ID (.s_reg s_a0), call⟩, ⟨.getOld ID (.s_reg s_a1), a1⟩,
    ⟨.getOld ID (.s_reg s_a2), a2⟩, ⟨.getOld ID (.s_reg s_a3), a3⟩]

/-- What a call is told: the `int` that it reads back is `back`, and `vRemoveBlocked` answers
`found`. -/
def Told (back found : Word) : List ((o : Op) × o.Answer) → Prop
  | [] => True
  | ⟨.storeWord _ _, _⟩ :: tr =>
    (∀ a (v : Word), ⟨.loadWord a, v⟩ ∈ tr → v = back) ∧ Told back found tr
  | ⟨.vRemoveBlocked _, (answer : Word)⟩ :: tr => answer = found ∧ Told back found tr
  | _ :: tr => Told back found tr

/-- The bytes of a buffer are in user space. -/
def InUserSpace (a : Word) (len : Nat) : Prop := len = 0 ∨ SEG2 ≤ a ∧ a.toNat + len ≤ 2 ^ 32

/-- The arguments lead to user space, where the line that a call waits for has at most `n`
characters, and a V that has to wake somebody finds a user process. -/
structure Contained (S : Setup) (n : Nat) (call a1 a2 back found : Word) : Prop where
  line : call = READTERMINAL → InUserSpace a1 n
  buffer : IsWriteCall call → InUserSpace a1 a2.toInt.toNat
  shared : IsSemCall call → SEG3 ≤ a1
  wakes : call = VSEMVIRT → back.toInt ≤ 0 → found = FAILURE ∨ S.IsProcess found

variable {S : Setup} {ID call a1 a2 a3 a back found : Word} {n len : Nat} {o : Op}
  {tr : List ((o : Op) × o.Answer)} {q : Code Unit}

theorem inUserSpace_iff : InUserSpace a len ↔ ∀ j < len, SEG2 ≤ a + BitVec.ofNat 32 j := by
  have hseg : SEG2.toNat = 2 ^ 31 := rfl
  constructor
  · rintro (hzero | ⟨hlo, hhi⟩) j hj
    · omega
    · rw [BitVec.le_def] at hlo ⊢
      rw [BitVec.toNat_add, BitVec.toNat_ofNat]
      omega
  · intro hall
    rcases Nat.eq_zero_or_pos len with hzero | hpos
    · exact .inl hzero
    · right
      have hlo : SEG2 ≤ a := by simpa using hall 0 hpos
      refine ⟨hlo, ?_⟩
      by_contra hover
      have hj := hall (2 ^ 32 - a.toNat) (by have := a.isLt; omega)
      rw [BitVec.le_def] at hlo hj
      rw [BitVec.toNat_add, BitVec.toNat_ofNat] at hj
      have := a.isLt
      omega

theorem isolated_of_plain (hquiet : o.isQuiet = true) (hawake : o.isAwake = true) :
    Isolated S ID call o := by
  cases o with
  | passeren s =>
    cases s with
    | mutexArray i => exact absurd hquiet nofun
    | uProc_semAdd k => exact absurd hawake nofun
    | _ => trivial
  | verhogen s =>
    cases s with
    | mutexArray i => exact absurd hquiet nofun
    | uProc_semAdd k => exact absurd hawake nofun
    | _ => trivial
  | loadWord a => exact absurd hquiet nofun
  | storeWord a v => exact absurd hquiet nofun
  | loadByte a => exact absurd hquiet nofun
  | storeByte a v => exact absurd hquiet nofun
  | waitio c => exact absurd hquiet nofun
  | _ => trivial

section

variable (hdisk : ¬ IsDiskCall call)

include hdisk

theorem isolated_mutex {d : Word} : Isolated S ID call (.passeren (.mutexArray d)) ∧
    Isolated S ID call (.verhogen (.mutexArray d)) :=
  ⟨fun h => absurd h hdisk, fun h => absurd h hdisk⟩

theorem isolated_readTerminal (h : InUserSpace a1 n) :
    (readTerminal n a1 ID).Always (Isolated S ID call) := by
  have hstore := inUserSpace_iff.mp h
  apply always_deviceCall (fun _ => isolated_of_plain) (isolated_mutex hdisk)
  exact always_readChars (fun _ => isolated_of_plain) (fun h => absurd h hdisk)
    fun j hj b => hstore j hj

/-- The loop of the two calls that write. -/
theorem isolated_writeChars {put : BitVec 8 → Command} {status : Word} (h : InUserSpace a1 len) :
    (writeChars put status a1 len).Always (Isolated S ID call) :=
  always_writeChars (fun _ => isolated_of_plain) (fun _ h => absurd h hdisk) (inUserSpace_iff.mp h)

end

theorem isolatedWord_of_semCall (hsem : IsSemCall call) (h : SEG3 ≤ a) : IsolatedWord call a :=
  ⟨fun _ => h, fun hno => absurd hsem hno⟩

/-- A process is woken by VSEMVIRT only after the `int` that has been read back was not
positive, and it is the one that `vRemoveBlocked` has found. -/
theorem vSemVirt_wakes {k : Word} (hperf : (vSemVirt S a ID).Performs tr q)
    (hmem : ⟨.verhogen (.uProc_semAdd k), ()⟩ ∈ tr) : ∃ (v w : Word) (tr' : List ((o : Op) × o.Answer)),
      tr = ⟨.loadWord a, v⟩ :: ⟨.storeWord a (v + 1), ()⟩ :: ⟨.loadWord a, w⟩ ::
        ⟨.vRemoveBlocked a, k⟩ :: tr' ∧ w.toInt ≤ 0 ∧ k ≠ FAILURE := by
  obtain ⟨v, tr₁, rfl, hperf₁, hmem₁⟩ := Performs.later hperf hmem (by simp)
  obtain ⟨u, tr₂, rfl, hperf₂, hmem₂⟩ := Performs.later hperf₁ hmem₁ (by simp)
  obtain ⟨w, tr₃, rfl, hperf₃, hmem₃⟩ := Performs.later hperf₂ hmem₂ (by simp)
  change (Prog.when (BitVec.toInt w ≤ 0) _).Performs tr₃ q at hperf₃
  by_cases hw : BitVec.toInt w ≤ 0
  swap
  · rw [Prog.when, if_neg hw] at hperf₃
    cases hperf₃
    exact absurd hmem₃ List.not_mem_nil
  rw [Prog.when, if_pos hw] at hperf₃
  obtain ⟨(answer : Word), tr₄, rfl, hperf₄, hmem₄⟩ :=
    Performs.later hperf₃ hmem₃ (by simp)
  change (Prog.when (answer = FAILURE) (meIRL S ID) >>= fun _ =>
    verhogen (.uProc_semAdd answer)).Performs tr₄ q at hperf₄
  by_cases hanswer : answer = FAILURE
  · -- the caller ends instead
    rw [Prog.when, if_pos hanswer] at hperf₄
    have hother : ∀ o : Op, o.isQuiet = true → o.isAwake = true →
        o ≠ .verhogen (.uProc_semAdd k) := by
      rintro o - hawake rfl
      exact absurd hawake Bool.false_ne_true
    have hnever := ((always_meIRL hother).bind_noReturn noReturn_meIRL).of_performs hperf₄
    exact absurd rfl (hnever _ hmem₄)
  · rw [Prog.when, if_neg hanswer] at hperf₄
    rcases Performs.first hperf₄ with rfl | ⟨r, tr₅, rfl, hperf₅⟩
    · exact absurd hmem₄ List.not_mem_nil
    rcases List.mem_cons.mp hmem₄ with heq | hmem₅
    · obtain rfl : k = answer := by simpa using congrArg Sigma.fst heq
      exact ⟨v, w, _, rfl, hw, hanswer⟩
    · cases hperf₅
      exact absurd hmem₅ List.not_mem_nil

/-- VSEMVIRT wakes nobody but a user process. -/
theorem isolated_vSemVirt (h : Contained S n VSEMVIRT a1 a2 back found)
    (hperf : (vSemVirt S a1 ID).Performs tr q) (htold : Told back found tr) :
    ∀ x ∈ tr, Isolated S ID VSEMVIRT x.1 := by
  have hword := isolatedWord_of_semCall (.inl rfl) (h.shared (.inl rfl))
  have hops : (vSemVirt S a1 ID).Always fun o =>
      Isolated S ID VSEMVIRT o ∨ ∃ k, o = .verhogen (.uProc_semAdd k) :=
    always_vSemVirt (.inl hword) (fun _ => .inl hword)
      (fun _ hquiet hawake => .inl (isolated_of_plain hquiet hawake)) (.inl trivial)
      fun k => .inr ⟨k, rfl⟩
  rintro ⟨o, r⟩ hx
  rcases hops.of_performs hperf _ hx with hisolated | ⟨k, hk⟩
  · exact hisolated
  obtain rfl : o = .verhogen (.uProc_semAdd k) := hk
  obtain ⟨v, w, tr', rfl, hw, hk⟩ := vSemVirt_wakes hperf hx
  obtain ⟨hback, hfound, -⟩ := htold
  have hw' : w = back := hback a1 w List.mem_cons_self
  subst hw' hfound
  exact (h.wakes rfl hw).resolve_left hk

/-- A call whose arguments lead to user space stays there. -/
theorem isolated_of_contained (h : Contained S n call a1 a2 back found)
    (hperf : (vmSysHandler S n ID).Performs (arguments ID call a1 a2 a3 ++ tr) q)
    (htold : Told back found tr) : ∀ x ∈ tr, Isolated S ID call x.1 := by
  have hplain : ∀ o : Op, o.isQuiet = true → o.isAwake = true → Isolated S ID call o :=
    fun _ => isolated_of_plain
  have hserve := performs_call_cons.mp (performs_call_cons.mp
    (performs_call_cons.mp (performs_call_cons.mp hperf)))
  by_cases hv : call = VSEMVIRT
  · subst hv
    exact isolated_vSemVirt h hserve htold
  refine Always.of_performs ?_ hserve
  refine always_ite (fun hcall => ?_) fun _ => always_ite (fun hcall => ?_) fun _ => ?_
  · exact isolated_readTerminal (hcall ▸ by decide) (h.line hcall)
  · have hdisk : ¬ IsDiskCall call := hcall ▸ by decide
    apply always_deviceCall hplain (isolated_mutex hdisk)
    exact isolated_writeChars hdisk (h.buffer (.inl hcall))
  refine always_ite (fun hcall => absurd hcall hv) fun _ => always_ite (fun hcall => ?_) fun _ => ?_
  · have hword := isolatedWord_of_semCall (.inr hcall) (h.shared (.inr hcall))
    exact always_pSemVirt hword (fun _ => hword) trivial rfl
  refine always_ite (fun _ => ?_) fun _ => ?_
  · exact always_delay hplain (fun _ => trivial) (fun _ => trivial) rfl
  refine always_ite (fun _ => always_diskIO hplain) fun _ => ?_
  refine always_ite (fun _ => always_diskIO hplain) fun _ => ?_
  refine always_ite (fun hcall => ?_) fun _ => ?_
  · have hdisk : ¬ IsDiskCall call := hcall ▸ by decide
    apply always_deviceCall hplain (isolated_mutex hdisk)
    exact isolated_writeChars hdisk (h.buffer (.inr hcall))
  refine always_ite (fun _ => ?_) fun _ => always_ite (fun _ => always_meIRL hplain) fun _ => trivial
  refine (always_perform (hplain _ rfl rfl)).bind fun _ => always_perform (hplain _ ?_ ?_)
  · simp [Op.isQuiet]
  · simp [Op.isAwake]

/-- While the device accepts every character, the loop gets to each of them. -/
theorem reaches_writeChars {put : BitVec 8 → Command} (status : Word) (hstatus : status &&& 0xFF = status)
    {j : Nat} (hj : j < len) :
    (writeChars put status a len).Reaches (.loadByte (a + BitVec.ofNat 32 j)) := by
  induction len generalizing a j with
  | zero => exact absurd hj (Nat.not_lt_zero j)
  | succ len ih =>
    cases j with
    | zero =>
      rw [show a + BitVec.ofNat 32 0 = a by simp]
      exact reaches_here (0 : BitVec 8)
    | succ j =>
      have hnext := ih (a := a + 1) (Nat.lt_of_succ_lt_succ hj)
      rw [BitVec.add_assoc, show (1 : Word) = BitVec.ofNat 32 1 from rfl, ← BitVec.ofNat_add,
        Nat.add_comm] at hnext
      refine Reaches.later (o := Op.loadByte a) (0 : BitVec 8) ?_
      refine Reaches.later (o := Op.waitio (put 0)) status ?_
      change (Prog.when (status &&& 0xFF ≠ status) panic >>= fun _ =>
        writeChars put status (a + 1) len).Reaches _
      rw [Prog.when, if_neg fun hne => hne hstatus]
      exact hnext

/-- While no line ends, the loop stores one character after the other. -/
theorem reaches_readChars {get : Command} {i : Word} {j : Nat} (hj : j < n) :
    (readChars get n a i).Reaches (.storeByte (a + BitVec.ofNat 32 j) 0x41) := by
  induction n generalizing a i j with
  | zero => exact absurd hj (Nat.not_lt_zero j)
  | succ n ih =>
    have hchar : ¬ ((0x4105 : Word) &&& 0xFF00) >>> 8 = 0x0A := by decide
    refine Reaches.later (o := Op.waitio get) (0x4105 : Word) ?_
    cases j with
    | zero =>
      rw [show a + BitVec.ofNat 32 0 = a by simp]
      exact reaches_here ()
    | succ j =>
      have hnext := ih (a := a + 1) (i := i + 1) (Nat.lt_of_succ_lt_succ hj)
      rw [BitVec.add_assoc, show (1 : Word) = BitVec.ofNat 32 1 from rfl, ← BitVec.ofNat_add,
        Nat.add_comm] at hnext
      exact Reaches.later (o := Op.storeByte a 0x41) () hnext

/-- The operation stores no `int` and looks for nobody to wake. -/
def NotTold : Op → Prop
  | .storeWord _ _ => False
  | .vRemoveBlocked _ => False
  | _ => True

theorem notTold_of_plain (hquiet : o.isQuiet = true) (hawake : o.isAwake = true) : NotTold o := by
  cases o with
  | storeWord a v => exact absurd hquiet nofun
  | vRemoveBlocked a => exact absurd hawake nofun
  | _ => trivial

theorem told_of_notTold (h : ∀ x ∈ tr, NotTold x.1) : Told back found tr := by
  induction tr with
  | nil => trivial
  | cons x tr ih =>
    have hrest := ih fun y hy => h y (List.mem_cons_of_mem _ hy)
    have hx := h x List.mem_cons_self
    obtain ⟨o, r⟩ := x
    cases o with
    | storeWord a v => exact absurd hx nofun
    | vRemoveBlocked a => exact absurd hx nofun
    | _ => exact hrest

/-- A V that finds somebody to wake. -/
theorem performs_vSemVirt (hback : back.toInt ≤ 0) (hfound : found ≠ FAILURE) :
    (vSemVirt S a ID).Performs [⟨.loadWord a, (0 : Word)⟩, ⟨.storeWord a (0 + 1), ()⟩,
      ⟨.loadWord a, back⟩, ⟨.vRemoveBlocked a, found⟩, ⟨.verhogen (.uProc_semAdd found), ()⟩]
      (.ret ()) := by
  refine .call (.call (.call ?_))
  change (Prog.when (back.toInt ≤ 0) _).Performs _ _
  rw [Prog.when, if_pos hback]
  refine .call ?_
  change (Prog.when (found = FAILURE) _ >>= _).Performs _ _
  rw [Prog.when, if_neg hfound]
  exact .call .nil

/-- A call that stays in user space has arguments that lead there. -/
theorem contained_of_isolated (h : ∀ (tr : List ((o : Op) × o.Answer)) (q : Code Unit),
      (vmSysHandler S n ID).Performs (arguments ID call a1 a2 a3 ++ tr) q → Told back found tr →
      ∀ x ∈ tr, Isolated S ID call x.1) : Contained S n call a1 a2 back found := by
  have hreach : ∀ {p : Code Unit} {o : Op}, p.Always NotTold → p.Reaches o →
      (∀ tr q, p.Performs tr q →
        (vmSysHandler S n ID).Performs (arguments ID call a1 a2 a3 ++ tr) q) →
      Isolated S ID call o := by
    rintro p o hplain ⟨tr, q, r, hperf, hmem⟩ hserve
    exact h tr q (hserve tr q hperf) (told_of_notTold (hplain.of_performs hperf)) _ hmem
  have hplain : ∀ o : Op, o.isQuiet = true → o.isAwake = true → NotTold o := fun _ => notTold_of_plain
  have hmutex : ∀ d, NotTold (.passeren (.mutexArray d)) ∧ NotTold (.verhogen (.mutexArray d)) :=
    fun _ => ⟨trivial, trivial⟩
  refine ⟨?_, ?_, ?_, ?_⟩
  · rintro rfl
    apply inUserSpace_iff.mpr
    intro j hj
    refine hreach (p := readTerminal n a1 ID) (o := Op.storeByte (a1 + BitVec.ofNat 32 j) 0x41) ?_ ?_
      fun tr q hperf => .call (.call (.call (.call hperf)))
    · exact always_deviceCall hplain (hmutex _) (always_readChars hplain trivial fun _ _ _ => trivial)
    · exact Reaches.later (o := Op.passeren _) () (reaches_readChars hj).bind
  · intro hcall
    apply inUserSpace_iff.mpr
    intro j hj
    rcases hcall with rfl | rfl
    · refine hreach (p := writeTerminal a1 a2 ID) (o := Op.loadByte (a1 + BitVec.ofNat 32 j)) ?_ ?_
        fun tr q hperf => .call (.call (.call (.call hperf)))
      · exact always_deviceCall hplain (hmutex _)
          (always_writeChars hplain (fun _ => trivial) fun _ _ => trivial)
      · exact Reaches.later (o := Op.passeren _) () (reaches_writeChars TRANSMITCHAR (by decide) hj).bind
    · refine hreach (p := writePrinter a1 a2 ID) (o := Op.loadByte (a1 + BitVec.ofNat 32 j)) ?_ ?_
        fun tr q hperf => .call (.call (.call (.call hperf)))
      · exact always_deviceCall hplain (hmutex _)
          (always_writeChars hplain (fun _ => trivial) fun _ _ => trivial)
      · exact Reaches.later (o := Op.passeren _) () (reaches_writeChars READY (by decide) hj).bind
  · intro hcall
    have hword : Isolated S ID call (.loadWord a1) := by
      rcases hcall with rfl | rfl
      · exact h [⟨.loadWord a1, (0 : Word)⟩] _ (.call (.call (.call (.call (.call .nil)))))
          trivial _ List.mem_cons_self
      · exact h [⟨.loadWord a1, (0 : Word)⟩] _ (.call (.call (.call (.call (.call .nil)))))
          trivial _ List.mem_cons_self
    exact hword.1 hcall
  · rintro rfl hback
    by_cases hfailure : found = FAILURE
    · exact .inl hfailure
    right
    have hwakes : (vSemVirt S a1 ID).Performs _ _ := performs_vSemVirt hback hfailure
    refine h _ _ (.call (.call (.call (.call hwakes)))) ?_ ⟨.verhogen (.uProc_semAdd found), ()⟩
      (by simp)
    refine ⟨fun a v hmem => ?_, rfl, trivial⟩
    rcases List.mem_cons.mp hmem with heq | hmem
    · cases heq
      rfl
    · exact (List.mem_cons.mp hmem).elim nofun fun hmem => absurd (List.mem_singleton.mp hmem) nofun

/-- A call stays in user space, whatever the devices and the memory answer, exactly
if its arguments lead there and whoever it has to wake is found. -/
theorem isolated_iff :
    (∀ (tr : List ((o : Op) × o.Answer)) (q : Code Unit),
      (vmSysHandler S n ID).Performs (arguments ID call a1 a2 a3 ++ tr) q → Told back found tr →
      ∀ x ∈ tr, Isolated S ID call x.1) ↔ Contained S n call a1 a2 back found :=
  ⟨contained_of_isolated, fun h _ _ => isolated_of_contained h⟩

/-- A PSEMVIRT on a word of kernel memory. -/
theorem not_always_isolated : ¬ ∀ (S : Setup) (n : Nat) (ID call a1 a2 a3 : Word)
    (tr : List ((o : Op) × o.Answer)) (q : Code Unit),
    (vmSysHandler S n ID).Performs (arguments ID call a1 a2 a3 ++ tr) q →
    ∀ x ∈ tr, Isolated S ID call x.1 := by
  intro hall
  have hperf : (vmSysHandler Setup.small 0 1).Performs (arguments 1 PSEMVIRT 0x20010000 0 0 ++
      [⟨.loadWord 0x20010000, (1 : Word)⟩, ⟨.storeWord 0x20010000 0, ()⟩]) _ :=
    .call (.call (.call (.call (.call (.call .nil)))))
  have hword := hall _ _ _ _ _ _ _ _ _ hperf _ (List.mem_cons_of_mem _ (List.mem_singleton_self _))
  exact absurd (hword.1 (.inr rfl)) (by decide)

end Kaya
