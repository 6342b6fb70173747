import Kaya.Phase2.Run

open Links

namespace Kaya

/-- The state with the given words. -/
def State.ofFields (g : Field → Word) : State :=
  ⟨g .s_asid, g .s_cause, g .s_status, g .s_pc, fun i => g (.s_reg i)⟩

@[simp] theorem State.get_ofFields (g : Field → Word) (f : Field) :
    (State.ofFields g).get f = g f := by
  cases f <;> rfl

/-- The state stored at an address. -/
def stateAt (mem : Word → Word) (a : Word) : State := State.ofFields fun f => mem (f.addr a)

/-- Memory after a state is stored at an address. -/
def storeState (mem : Word → Word) (a : Word) (st : State) : Word → Word :=
  Field.all.foldl (fun m f => Function.update m (f.addr a) (st.get f)) mem

/-- All words of a state at `a` can be read. -/
def Machine.readableState (M : Machine) (a : Word) : Bool :=
  Field.all.all fun f => M.readable (f.addr a)

def Machine.writableState (M : Machine) (a : Word) : Bool :=
  Field.all.all fun f => M.writable (f.addr a)

theorem Machine.readableState_iff {M : Machine} {a : Word} :
    M.readableState a = true ↔ ∀ f : Field, M.readable (f.addr a) = true := by
  simp [readableState, Field.mem_all]

theorem Machine.writableState_iff {M : Machine} {a : Word} :
    M.writableState a = true ↔ ∀ f : Field, M.writable (f.addr a) = true := by
  simp [writableState, Field.mem_all]

theorem State.get_foldl_set (st s : State) (l : List Field) (f : Field) :
    (l.foldl (fun s f => s.set f (st.get f)) s).get f = if f ∈ l then st.get f else s.get f := by
  induction l generalizing s with
  | nil => simp
  | cons g l ih =>
    rw [List.foldl_cons, ih]
    by_cases hfl : f ∈ l
    · simp [hfl]
    · by_cases hfg : f = g <;> simp [hfl, hfg]

/-- Setting every word sets the state. -/
theorem State.foldl_set_all (st s : State) :
    Field.all.foldl (fun s f => s.set f (st.get f)) s = st := by
  ext f
  rw [State.get_foldl_set, if_pos (Field.mem_all f)]

variable {M : Machine} {d : Data} {area area' : OldArea} {p : Pid} {a : Word}

section

variable {src : StateRef} {st : State}

theorem run_copy_to_pcb {l : List Field}
    (hsrc : ∀ s, ∀ f ∈ l, (getField M src f).run { d with pcb_state := s } =
      .ok (st.get f) { d with pcb_state := s }) (s : Pid → State) :
    (l.forM fun f => do setField M (.pcb_state (.to p)) f (← getField M src f)).run
        { d with pcb_state := s } =
      .ok () { d with
        pcb_state := Function.update s p (l.foldl (fun s f => s.set f (st.get f)) (s p)) } := by
  induction l generalizing s with
  | nil =>
    rw [List.foldl_nil, Function.update_eq_self]
    rfl
  | cons f l ih =>
    have hfirst : (do setField M (.pcb_state (.to p)) f (← getField M src f)).run
        { d with pcb_state := s } =
        .ok () { d with pcb_state := Function.update s p ((s p).set f (st.get f)) } := by
      rw [Exec.run_bind_ok (hsrc s f List.mem_cons_self), run_setField_pcb]
    refine (Exec.run_bind_ok hfirst).trans ?_
    have hrest := ih (fun s g hg => hsrc s g (List.mem_cons_of_mem _ hg))
      (Function.update s p ((s p).set f (st.get f)))
    rw [Function.update_idem, Function.update_self] at hrest
    exact hrest

/-- Copying a readable state into a pcb. -/
theorem run_copyState_pcb (hsrc : ∀ s f, (getField M src f).run { d with pcb_state := s } =
      .ok (st.get f) { d with pcb_state := s }) :
    (copyState M src (.pcb_state (.to p))).run d =
      .ok () { d with pcb_state := Function.update d.pcb_state p st } := by
  have hrun := run_copy_to_pcb (p := p) (l := Field.all) (fun s f _ => hsrc s f) d.pcb_state
  rw [State.foldl_set_all] at hrun
  exact hrun

end

theorem run_copyState_old_pcb : (copyState M (.old area) (.pcb_state (.to p))).run d =
    .ok () { d with pcb_state := Function.update d.pcb_state p (d.old area) } :=
  run_copyState_pcb fun _ _ => rfl

theorem run_copyState_mem_pcb (ha : M.readableState a = true) :
    (copyState M (.mem a) (.pcb_state (.to p))).run d =
      .ok () { d with pcb_state := Function.update d.pcb_state p (stateAt d.mem a) } := by
  refine run_copyState_pcb fun s f => ?_
  have hf := Machine.readableState_iff.mp ha f
  simp [getField, run_loadWord_ok hf, stateAt]

theorem run_copyState_null : (copyState M (.old area) (.pcb_state .null)).run d =
    .error .trap d := rfl

/-- Copying a state that is not all readable traps halfway. -/
theorem run_copyState_mem_pcb_trap (ha : M.readableState a = false) :
    ∃ st, (copyState M (.mem a) (.pcb_state (.to p))).run d =
      .error .trap { d with pcb_state := Function.update d.pcb_state p st } := by
  have hbad : ∃ f ∈ Field.all, M.readable (f.addr a) = false := by
    simpa [Machine.readableState] using ha
  unfold copyState
  generalize Field.all = l at hbad
  induction l generalizing d with
  | nil => simp at hbad
  | cons f l ih =>
    by_cases hf : M.readable (f.addr a) = true
    · have hbad' : ∃ g ∈ l, M.readable (g.addr a) = false := by
        obtain ⟨g, hg, hgbad⟩ := hbad
        rcases List.mem_cons.mp hg with rfl | hg
        · rw [hf] at hgbad
          exact absurd hgbad (by simp)
        · exact ⟨g, hg, hgbad⟩
      have hget : (getField M (.mem a) f).run d = .ok (d.mem (f.addr a)) d := run_loadWord_ok hf
      have hfirst := (Exec.run_bind_ok
        (f := fun w => setField M (.pcb_state (.to p)) f w) hget).trans run_setField_pcb
      obtain ⟨st, hrest⟩ := ih
        (d := { d with
          pcb_state := Function.update d.pcb_state p ((d.pcb_state p).set f (d.mem (f.addr a))) })
        hbad'
      simp only [Function.update_idem] at hrest
      exact ⟨st, (Exec.run_bind_ok hfirst).trans hrest⟩
    · refine ⟨d.pcb_state p, ?_⟩
      have hget : (getField M (.mem a) f).run d = .error .trap d :=
        run_loadWord_trap (by simpa using hf)
      have hfirst := Exec.run_bind_error
        (f := fun w => setField M (.pcb_state (.to p)) f w) hget
      rw [Function.update_eq_self]
      exact Exec.run_bind_error hfirst

theorem run_copyState_old_old (hne : area ≠ area') :
    (copyState M (.old area) (.old area')).run d =
      .ok () { d with old := Function.update d.old area' (d.old area) } := by
  have hstep : ∀ l : List Field, ∀ o : OldArea → State, o area = d.old area →
      (l.forM fun f => do setField M (.old area') f (← getField M (.old area) f)).run
          { d with old := o } =
        .ok () { d with
          old := Function.update o area'
            (l.foldl (fun s f => s.set f ((d.old area).get f)) (o area')) } := by
    intro l
    induction l with
    | nil =>
      intro o _
      rw [List.foldl_nil, Function.update_eq_self]
      rfl
    | cons f l ih =>
      intro o ho
      have hrest := ih (Function.update o area' ((o area').set f ((d.old area).get f)))
        (by rw [Function.update_of_ne hne, ho])
      rw [Function.update_idem, Function.update_self] at hrest
      rw [List.foldl_cons, ← hrest, ← ho]
      rfl
  have hrun := hstep Field.all d.old rfl
  rw [State.foldl_set_all] at hrun
  exact hrun

theorem run_copyState_old_mem (ha : M.writableState a = true) :
    (copyState M (.old area) (.mem a)).run d =
      .ok () { d with mem := storeState d.mem a (d.old area) } := by
  have hall := Machine.writableState_iff.mp ha
  have hstep : ∀ l : List Field, ∀ m : Word → Word,
      (l.forM fun f => do setField M (.mem a) f (← getField M (.old area) f)).run
          { d with mem := m } =
        .ok () { d with
          mem := l.foldl (fun m f => Function.update m (f.addr a) ((d.old area).get f)) m } := by
    intro l
    induction l with
    | nil => exact fun _ => rfl
    | cons f l ih =>
      intro m
      have hfirst : (do setField M (.mem a) f (← getField M (.old area) f)).run
          { d with mem := m } =
          .ok () { d with mem := Function.update m (f.addr a) ((d.old area).get f) } := by
        rw [Exec.run_bind_ok run_getField_old]
        exact run_storeWord_ok (hall f)
      exact (Exec.run_bind_ok hfirst).trans (ih _)
  exact hstep Field.all d.mem

/-- Copying to a state that is not all writable traps halfway; only words of
that state have changed. -/
theorem run_copyState_old_mem_trap (d : Data) (area : OldArea) (ha : M.writableState a = false) :
    ∃ mem, (copyState M (.old area) (.mem a)).run d = .error .trap { d with mem := mem } ∧
      ∀ w, (∀ f : Field, f.addr a ≠ w) → mem w = d.mem w := by
  have hbad : ∃ f ∈ Field.all, M.writable (f.addr a) = false := by
    simpa [Machine.writableState] using ha
  unfold copyState
  generalize Field.all = l at hbad
  induction l generalizing d with
  | nil => simp at hbad
  | cons f l ih =>
    by_cases hf : M.writable (f.addr a) = true
    · have hbad' : ∃ g ∈ l, M.writable (g.addr a) = false := by
        obtain ⟨g, hg, hgbad⟩ := hbad
        rcases List.mem_cons.mp hg with rfl | hg
        · rw [hf] at hgbad
          exact absurd hgbad (by simp)
        · exact ⟨g, hg, hgbad⟩
      have hfirst : (do setField M (.mem a) f (← getField M (.old area) f)).run d =
          .ok () { d with mem := Function.update d.mem (f.addr a) ((d.old area).get f) } := by
        rw [Exec.run_bind_ok run_getField_old]
        exact run_storeWord_ok hf
      obtain ⟨mem, hrest, hoff⟩ := ih
        (d := { d with mem := Function.update d.mem (f.addr a) ((d.old area).get f) }) hbad'
      refine ⟨mem, (Exec.run_bind_ok hfirst).trans hrest, fun w hw => ?_⟩
      rw [hoff w hw]
      exact Function.update_of_ne (hw f).symm _ _
    · refine ⟨d.mem, ?_, fun _ _ => rfl⟩
      have hfirst : (do setField M (.mem a) f (← getField M (.old area) f)).run d =
          .error .trap d := by
        rw [Exec.run_bind_ok run_getField_old]
        exact run_storeWord_trap (by simpa using hf)
      exact Exec.run_bind_error hfirst

theorem storeState_of_ne {mem : Word → Word} {st : State} {w : Word}
    (hw : ∀ f : Field, f.addr a ≠ w) : storeState mem a st w = mem w := by
  unfold storeState
  generalize Field.all = l
  induction l generalizing mem with
  | nil => rfl
  | cons f l ih =>
    rw [List.foldl_cons, ih]
    exact Function.update_of_ne (hw f).symm _ _

theorem run_loadState {ref : StateRef} {st : State}
    (href : ∀ f, (getField M ref f).run d = .ok (st.get f) d) :
    (loadState M ref).run d = .ok st d := by
  have hstep : ∀ l : List Field, ∀ s : State,
      (l.foldlM (fun st f => return st.set f (← getField M ref f)) s : DataM State).run d =
        .ok (l.foldl (fun s f => s.set f (st.get f)) s) d := by
    intro l
    induction l with
    | nil => exact fun _ => rfl
    | cons f l ih =>
      intro s
      have hfirst : (do return s.set f (← getField M ref f) : DataM State).run d =
          .ok (s.set f (st.get f)) d := by
        rw [Exec.run_bind_ok (href f)]
        rfl
      rw [List.foldlM_cons, Exec.run_bind_ok hfirst, ih, List.foldl_cons]
  unfold loadState
  rw [hstep, State.foldl_set_all]

theorem run_loadState_mem_trap (ha : M.readableState a = false) :
    (loadState M (.mem a)).run d = .error .trap d := by
  have hbad : ∃ f ∈ Field.all, M.readable (f.addr a) = false := by
    simpa [Machine.readableState] using ha
  unfold loadState
  generalize State.zero = s
  generalize Field.all = l at hbad
  induction l generalizing s with
  | nil => simp at hbad
  | cons f l ih =>
    rw [List.foldlM_cons]
    by_cases hf : M.readable (f.addr a) = true
    · have hbad' : ∃ g ∈ l, M.readable (g.addr a) = false := by
        obtain ⟨g, hg, hgbad⟩ := hbad
        rcases List.mem_cons.mp hg with rfl | hg
        · rw [hf] at hgbad
          exact absurd hgbad (by simp)
        · exact ⟨g, hg, hgbad⟩
      have hget : (getField M (.mem a) f).run d = .ok (d.mem (f.addr a)) d := run_loadWord_ok hf
      have hfirst : (do return s.set f (← getField M (.mem a) f) : DataM State).run d =
          .ok (s.set f (d.mem (f.addr a))) d := by
        rw [Exec.run_bind_ok hget]
        rfl
      rw [Exec.run_bind_ok hfirst]
      exact ih _ hbad'
    · have hget : (getField M (.mem a) f).run d = .error .trap d :=
        run_loadWord_trap (by simpa using hf)
      exact Exec.run_bind_error (Exec.run_bind_error hget)

theorem run_putALoadInMeDaddy_old : (putALoadInMeDaddy M (.old area)).run d =
    .error (.LDST (.old area) (d.old area)) d := by
  unfold putALoadInMeDaddy
  rw [Exec.run_bind_ok (run_loadState fun _ => run_getField_old)]
  rfl

theorem run_putALoadInMeDaddy_pcb : (putALoadInMeDaddy M (.pcb_state (.to p))).run d =
    .error (.LDST (.pcb_state (.to p)) (d.pcb_state p)) d := by
  unfold putALoadInMeDaddy
  rw [Exec.run_bind_ok (run_loadState fun _ => run_getField_pcb)]
  rfl

theorem run_putALoadInMeDaddy_mem (ha : M.readableState a = true) :
    (putALoadInMeDaddy M (.mem a)).run d = .error (.LDST (.mem a) (stateAt d.mem a)) d := by
  have hall := Machine.readableState_iff.mp ha
  unfold putALoadInMeDaddy
  have hload : (loadState M (.mem a)).run d = .ok (stateAt d.mem a) d :=
    run_loadState fun f => by simp [getField, run_loadWord_ok (hall f), stateAt]
  rw [Exec.run_bind_ok hload]
  rfl

theorem run_putALoadInMeDaddy_mem_trap (ha : M.readableState a = false) :
    (putALoadInMeDaddy M (.mem a)).run d = .error .trap d :=
  Exec.run_bind_error (run_loadState_mem_trap ha)

end Kaya
