import Kaya.Phase3.Calls

open Exec Prog

namespace Kaya

open Code

/-- A word that is stored to the old area of a process during its call: by the
handler, or by other code. -/
inductive AreaStore where
  | handler (f : Field) (w : Word)
  | outside (f : Field) (w : Word)

def AreaStore.field : AreaStore → Field
  | handler f _ => f
  | outside f _ => f

def AreaStore.word : AreaStore → Word
  | handler _ w => w
  | outside _ w => w

/-- The handler of a process has run from `start`, with `trapped` in the old area:
what is left of it, the state in the area now, and the stores to the area, the last
one first. -/
inductive Handled (ID : Word) (start : Code Unit) (trapped : State) :
    Code Unit → State → List AreaStore → Prop where
  | start : Handled ID start trapped start trapped []
  | outside {p : Code Unit} {st : State} {log : List AreaStore} {f : Field} {w : Word} :
      Handled ID start trapped p st log →
      Handled ID start trapped p (st.set f w) (.outside f w :: log)
  | getOld {f : Field} {k : Word → Code Unit} {st : State} {log : List AreaStore} :
      Handled ID start trapped (.call (.getOld ID f) k) st log →
      Handled ID start trapped (k (st.get f)) st log
  | setOld {f : Field} {w : Word} {k : Unit → Code Unit} {st : State} {log : List AreaStore} :
      Handled ID start trapped (.call (.setOld ID f w) k) st log →
      Handled ID start trapped (k ()) (st.set f w) (.handler f w :: log)
  | other {o : Op} {k : o.Answer → Code Unit} {r : o.Answer} {st : State} {log : List AreaStore} :
      (∀ f, o ≠ .getOld ID f) → (∀ f w, o ≠ .setOld ID f w) →
      Handled ID start trapped (.call o k) st log → Handled ID start trapped (k r) st log

/-- The last store to a word of the area. -/
def lastStore (f : Field) (log : List AreaStore) : Option AreaStore :=
  log.find? fun x => x.field = f

/-- The result of the call: the last word that the handler has stored to `v0`. -/
def result : List AreaStore → Option Word
  | [] => none
  | .handler f w :: log => if f = .s_reg s_v0 then some w else result log
  | .outside _ _ :: log => result log

/-- The state behind the SYSCALL, with the result if there is one. -/
def servedState (trapped : State) (log : List AreaStore) : State :=
  match result log with
  | some w => (trapped.set .s_pc (trapped.s_pc + 4)).set (.s_reg s_v0) w
  | none => trapped.set .s_pc (trapped.s_pc + 4)

/-- Other code has stored the advanced pc to the area, and all that it left there
is as in the state behind the SYSCALL. -/
structure Overwritten (trapped : State) (log : List AreaStore) : Prop where
  pc : lastStore .s_pc log = some (.outside .s_pc (trapped.s_pc + 4))
  others : ∀ f w, lastStore f log = some (.outside f w) → w = (servedState trapped log).get f

variable {S : Setup} {n : Nat} {ID : Word} {start p : Code Unit} {trapped st : State}
  {log : List AreaStore} {f : Field}

/-- Of the area the operation stores to `v0` only. -/
def OnlyResult (o : Op) : Prop := ∀ p f w, o = .setOld p f w → f = .s_reg s_v0

theorem onlyResult_of_isQuiet {o : Op} (h : o.isQuiet = true) : OnlyResult o := by
  rintro p f w rfl
  simpa [Op.isQuiet] using h

theorem always_onlyResult : (vmSysHandler S n ID).Always OnlyResult := by
  have hquiet : ∀ o : Op, o.isQuiet = true → OnlyResult o := fun _ => onlyResult_of_isQuiet
  have hplain : ∀ o : Op, o.isQuiet = true → o.isAwake = true → OnlyResult o := fun o h _ => hquiet o h
  have hmutex (d : Word) : OnlyResult (.passeren (.mutexArray d)) ∧
      OnlyResult (.verhogen (.mutexArray d)) := ⟨nofun, nofun⟩
  unfold vmSysHandler
  have hop : ∀ {o : Op}, o.isQuiet = true → (perform o : Code _).Always OnlyResult :=
    fun h => always_perform (hquiet _ h)
  refine (hop rfl).bind fun (callNumber : Word) => (hop rfl).bind fun (a1 : Word) => ?_
  refine (hop rfl).bind fun (a2 : Word) => (hop rfl).bind fun (a3 : Word) => ?_
  refine always_ite (fun _ => ?_) fun _ => always_ite (fun _ => ?_) fun _ => ?_
  · exact always_deviceCall hplain (hmutex _) (always_readChars hplain nofun fun _ _ _ => nofun)
  · exact always_deviceCall hplain (hmutex _) (always_writeChars hplain (fun _ => nofun) fun _ _ => nofun)
  refine always_ite (fun _ => ?_) fun _ => always_ite (fun _ => ?_) fun _ => ?_
  · exact always_vSemVirt nofun (fun _ => nofun) hplain nofun fun _ => nofun
  · exact always_pSemVirt nofun (fun _ => nofun) nofun nofun
  refine always_ite (fun _ => always_delay hplain (fun _ => nofun) (fun _ => nofun) nofun) fun _ => ?_
  refine always_ite (fun _ => always_diskIO hplain) fun _ => ?_
  refine always_ite (fun _ => always_diskIO hplain) fun _ => always_ite (fun _ => ?_) fun _ => ?_
  · exact always_deviceCall hplain (hmutex _) (always_writeChars hplain (fun _ => nofun) fun _ _ => nofun)
  refine always_ite (fun _ => ?_) fun _ => always_ite (fun _ => always_meIRL hplain) fun _ => trivial
  exact (hop rfl).bind fun _ => hop (by simp [Op.isQuiet])

theorem lastStore_cons {x : AreaStore} :
    lastStore f (x :: log) = if x.field = f then some x else lastStore f log := by
  simp only [lastStore, List.find?_cons]
  split
  · simp_all
  · simp_all

theorem lastStore_field {x : AreaStore} (h : lastStore f log = some x) : x.field = f := by
  simpa using List.find?_some h

/-- One more store to the area. -/
theorem get_store {x : AreaStore}
    (h : st.get f = ((lastStore f log).map AreaStore.word).getD (trapped.get f)) :
    (st.set x.field x.word).get f =
      ((lastStore f (x :: log)).map AreaStore.word).getD (trapped.get f) := by
  rw [State.get_set, lastStore_cons]
  by_cases hf : f = x.field
  · rw [if_pos hf, if_pos hf.symm]
    rfl
  · rw [if_neg hf, if_neg (Ne.symm hf)]
    exact h

/-- The area holds the last word stored, else the word trapped. -/
theorem Handled.get_eq (h : Handled ID start trapped p st log) (f : Field) :
    st.get f = ((lastStore f log).map AreaStore.word).getD (trapped.get f) := by
  induction h with
  | start => rfl
  | @outside p st log g w _ ih => exact get_store (x := .outside g w) ih
  | getOld _ ih => exact ih
  | @setOld g w k st log _ ih => exact get_store (x := .handler g w) ih
  | other _ _ _ ih => exact ih

/-- The handler stores to `v0` only. -/
theorem Handled.onlyResult (h : Handled ID start trapped p st log) (hstart : start.Always OnlyResult) :
    p.Always OnlyResult ∧ ∀ f w, .handler f w ∈ log → f = .s_reg s_v0 := by
  induction h with
  | start => exact ⟨hstart, fun f w hmem => absurd hmem List.not_mem_nil⟩
  | outside _ ih => exact ⟨ih.1, fun f w hmem => ih.2 f w (by simpa using hmem)⟩
  | getOld _ ih => exact ⟨ih.1.2 _, ih.2⟩
  | setOld _ ih =>
    refine ⟨ih.1.2 _, fun f w hmem => ?_⟩
    rcases List.mem_cons.mp hmem with heq | hmem
    · obtain ⟨rfl, rfl⟩ := AreaStore.handler.inj heq
      exact ih.1.1 _ _ _ rfl
    · exact ih.2 f w hmem
  | other _ _ _ ih => exact ⟨ih.1.2 _, ih.2⟩

/-- A store to `v0` by the handler, with none behind it, is the result. -/
theorem result_of_lastStore {w : Word}
    (h : lastStore (.s_reg s_v0) log = some (.handler (.s_reg s_v0) w)) : result log = some w := by
  induction log with
  | nil => exact absurd h nofun
  | cons x log ih =>
    rw [lastStore_cons] at h
    split at h
    · obtain rfl := Option.some.inj h
      simp [result]
    · cases x with
      | handler f w' => exact (if_neg ‹_›).trans (ih h)
      | outside f w' => exact ih h

theorem result_of_lastStore_none (h : lastStore (.s_reg s_v0) log = none) : result log = none := by
  induction log with
  | nil => rfl
  | cons x log ih =>
    rw [lastStore_cons] at h
    split at h
    · exact absurd h nofun
    · cases x with
      | handler f w' => exact (if_neg ‹_›).trans (ih h)
      | outside f w' => exact ih h

/-- What the state behind the SYSCALL has in a word. -/
theorem get_servedState : (servedState trapped log).get f =
    if f = .s_reg s_v0 then (result log).getD (trapped.get (.s_reg s_v0))
    else if f = .s_pc then trapped.s_pc + 4 else trapped.get f := by
  unfold servedState
  cases result log with
  | none =>
    rw [State.get_set]
    by_cases hv0 : f = .s_reg s_v0
    · simp [hv0]
    · simp [hv0]
  | some w => simp [State.get_set]

theorem pc_advanced (pc : Word) : pc ≠ pc + 4 := by
  intro h
  bv_omega

/-- A call that is handled continues behind its SYSCALL only if other code has
stored the advanced pc to the old area: the handler never does. -/
theorem served_iff (h : Handled ID (vmSysHandler S n ID) trapped (.ret ()) st log) :
    st = servedState trapped log ↔ Overwritten trapped log := by
  have honly := (h.onlyResult always_onlyResult).2
  have hhandler : ∀ f g w, lastStore f log = some (.handler g w) → g = f ∧ f = .s_reg s_v0 := by
    intro f g w hlast
    obtain rfl : g = f := lastStore_field hlast
    exact ⟨rfl, honly g w (List.mem_of_find?_eq_some hlast)⟩
  constructor
  · intro hserved
    have hget (f : Field) := (congrArg (State.get · f) hserved).symm.trans (h.get_eq f)
    refine ⟨?_, fun f w hlast => ?_⟩
    · have hpc := hget .s_pc
      rw [get_servedState, if_neg nofun, if_pos rfl] at hpc
      cases hlast : lastStore .s_pc log with
      | none =>
        rw [hlast] at hpc
        exact absurd hpc.symm (pc_advanced trapped.s_pc)
      | some x =>
        cases x with
        | handler g w => exact absurd (hhandler _ _ _ hlast).2 nofun
        | outside g w =>
          obtain rfl : g = .s_pc := lastStore_field hlast
          rw [hlast] at hpc
          rw [hpc]
          rfl
    · have hf := hget f
      rw [hlast] at hf
      exact hf.symm
  · intro hover
    apply State.ext_get
    intro f
    cases hlast : lastStore f log with
    | none =>
      rw [h.get_eq, hlast, get_servedState]
      by_cases hv0 : f = .s_reg s_v0
      · subst hv0
        rw [if_pos rfl, result_of_lastStore_none hlast]
        rfl
      · rw [if_neg hv0, if_neg ?_]
        · rfl
        · rintro rfl
          exact absurd (hlast.symm.trans hover.pc) nofun
    | some x =>
      cases x with
      | handler g w =>
        obtain ⟨rfl, rfl⟩ := hhandler _ _ _ hlast
        rw [h.get_eq, hlast, get_servedState, if_pos rfl, result_of_lastStore hlast]
        rfl
      | outside g w =>
        obtain rfl : g = f := lastStore_field hlast
        rw [h.get_eq, hlast, ← hover.others g w hlast]
        rfl

/-- A WRITEPRINTER of two characters. -/
def printerCall : State :=
  { State.zero with s_reg := fun i =>
      if i = s_a0 then WRITEPRINTER else if i = s_a1 then SEG2 else if i = s_a2 then 2 else 0 }

/-- While the characters are printed, other code stores the advanced pc to the old area. -/
def printerLog : List AreaStore := [.handler (.s_reg s_v0) 2, .outside .s_pc 4]

theorem printerCall_handled : Handled 1 (vmSysHandler .small 0 1) printerCall (.ret ())
    ((printerCall.set .s_pc 4).set (.s_reg s_v0) 2) printerLog := by
  have h0 : Handled 1 (vmSysHandler .small 0 1) printerCall _ _ _ := .start
  have hcall := h0.getOld.getOld.getOld.getOld
  have htake := Handled.other (o := .passeren (.mutexArray PRINTDEV)) (r := ()) nofun nofun hcall
  have hload := Handled.other (o := .loadByte SEG2) (r := (72 : BitVec 8)) nofun nofun htake
  have hprint := Handled.other (o := .waitio _) (r := READY) nofun nofun hload
  have hstored := hprint.outside (f := .s_pc) (w := 4)
  have hload' := Handled.other (o := .loadByte (SEG2 + 1)) (r := (105 : BitVec 8)) nofun nofun hstored
  have hprint' := Handled.other (o := .waitio _) (r := READY) nofun nofun hload'
  exact .other (o := .verhogen (.mutexArray PRINTDEV)) (r := ()) nofun nofun hprint'.setOld

theorem printerCall_served : (printerCall.set .s_pc 4).set (.s_reg s_v0) 2 =
    servedState printerCall printerLog := by
  refine (served_iff printerCall_handled).mpr ⟨rfl, fun f w hlast => ?_⟩
  rw [printerLog, lastStore_cons, lastStore_cons] at hlast
  split at hlast
  · exact absurd hlast nofun
  · split at hlast
    · rename_i hf
      obtain rfl : Field.s_pc = f := hf
      exact (AreaStore.outside.inj (Option.some.inj hlast)).2.symm
    · exact absurd hlast nofun

/-- A GET_TOD. -/
def clockCall : State := { State.zero with s_reg := fun i => if i = s_a0 then GET_TOD else 0 }

/-- The GET_TOD at time 100. -/
theorem clockCall_handled : Handled 1 (vmSysHandler .small 0 1) clockCall (.ret ())
    (clockCall.set (.s_reg s_v0) 100) [.handler (.s_reg s_v0) 100] := by
  have h0 : Handled 1 (vmSysHandler .small 0 1) clockCall _ _ _ := .start
  have h4 := h0.getOld.getOld.getOld.getOld
  have h5 := Handled.other (o := .STCK) (r := (100 : Word)) nofun nofun h4
  exact h5.setOld

theorem not_always_served : ¬ ∀ (S : Setup) (n : Nat) (ID : Word) (trapped st : State)
    (log : List AreaStore), Handled ID (vmSysHandler S n ID) trapped (.ret ()) st log →
    st = servedState trapped log := by
  intro hall
  have hpc := congrArg State.s_pc (hall _ _ _ _ _ _ clockCall_handled)
  exact absurd hpc (by decide)

end Kaya
