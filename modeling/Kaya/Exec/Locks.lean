import Kaya.Exec.Threads
import Mathlib.Data.List.Nodup
import Mathlib.Data.List.Flatten

/-! Mutual exclusion of threads that take and give back mutexes in pairs. -/

namespace Exec

variable {T A E O σ : Type} {R : O → Type}

/-- All mutexes that activations have taken and not given back. -/
def taken (fs : List (Frame A O R)) : List A := fs.flatMap Frame.held

namespace Threads

variable [DecidableEq A]

/-- What an activation may do with mutexes while `outer` are taken by the ones
around it: the logical state lists the mutexes that it has taken itself. Which
mutexes may be taken during other operations is left to `ok`. -/
def lockContract (S : Threads T A E O R σ) (ok : List A → O → Prop) (outer : List A) :
    Prog.Contract O R (List A) where
  pre held o := match S.kind o with
    | .passeren a => S.mutex a = true → a ∉ held ++ outer
    | .verhogen a => S.mutex a = true → a ∈ held
    | .exit => held ++ outer = []
    | .halt => True
    | .other => ok (held ++ outer) o
  post held o _ held' := held' = match S.kind o with
    | .passeren a => S.take a held
    | .verhogen a => S.give a held
    | _ => held

/-- The rest of an activation gives back what it has taken, and takes nothing
twice; if it ends the thread, then nothing is taken. -/
def Disciplined (S : Threads T A E O R σ) (ok : List A → O → Prop) (outer held : List A)
    (p : Prog O R Unit) : Prop :=
  p.Meets (S.lockContract ok outer) held fun held _ => held = []

/-- All activations of a thread are disciplined. -/
def StackDisciplined (S : Threads T A E O R σ) (ok : List A → O → Prop) :
    List (Frame A O R) → Prop
  | [] => True
  | f :: fs => S.Disciplined ok (taken fs) f.held f.prog ∧ StackDisciplined S ok fs

end Threads

/-- A mutex is free, or one thread has it and the others that took it wait. -/
inductive Pool.Exclusive (c : Pool T A O R σ) (a : A) : Prop where
  | free : c.value a = 1 → c.queue a = [] → (∀ t, a ∉ taken (c.stack t)) → Exclusive c a
  | owned (t : T) : c.value a = -(c.queue a).length → (t :: c.queue a).Nodup →
      (∀ t', a ∈ taken (c.stack t') ↔ t' ∈ t :: c.queue a) → Exclusive c a

/-- What holds between the mutexes and the threads in every state. -/
structure Threads.Locked [DecidableEq A] (S : Threads T A E O R σ) (ok : List A → O → Prop)
    (c : Pool T A O R σ) : Prop where
  disciplined : ∀ t, S.StackDisciplined ok (c.stack t)
  nodup : ∀ t, (taken (c.stack t)).Nodup
  exclusive : ∀ a, S.mutex a = true → c.Exclusive a
  mutexes : ∀ t, ∀ a ∈ taken (c.stack t), S.mutex a = true
  dead : ∀ t, c.dead t = true → c.stack t = []

variable {c c' : Pool T A O R σ} {t t' : T} {a : A} {held : List A} {fs : List (Frame A O R)}
  {o : O} {k : R o → Prog O R Unit} {ok : List A → O → Prop}

@[simp] theorem taken_nil : taken ([] : List (Frame A O R)) = [] := rfl

@[simp] theorem taken_cons {f : Frame A O R} : taken (f :: fs) = f.held ++ taken fs := rfl

/-- A thread that can go on and has taken a mutex has it. -/
theorem Pool.Exclusive.eq (h : c.Exclusive a) (ht : t ∉ c.queue a) (ht' : t' ∉ c.queue a)
    (hmem : a ∈ taken (c.stack t)) (hmem' : a ∈ taken (c.stack t')) : t = t' := by
  cases h with
  | free _ _ hnone => exact absurd hmem (hnone t)
  | owned u _ _ howner =>
    have htu := (List.mem_cons.mp ((howner t).mp hmem)).resolve_right ht
    have htu' := (List.mem_cons.mp ((howner t').mp hmem')).resolve_right ht'
    exact htu.trans htu'.symm

/-- Replacing the stack of a thread by one with the same mutexes. -/
theorem Pool.Exclusive.congr (h : c.Exclusive a) (hvalue : c'.value a = c.value a)
    (hqueue : c'.queue a = c.queue a)
    (htaken : ∀ t, a ∈ taken (c'.stack t) ↔ a ∈ taken (c.stack t)) : c'.Exclusive a := by
  cases h with
  | free hv hq hnone =>
    exact .free (hvalue.trans hv) (hqueue.trans hq) fun t ht => hnone t ((htaken t).mp ht)
  | owned u hv hnodup howner =>
    refine .owned u (by rw [hvalue, hv, hqueue]) (by rw [hqueue]; exact hnodup) fun t => ?_
    rw [htaken, howner, hqueue]

variable [DecidableEq T] [DecidableEq A] {S : Threads T A E O R σ}

/-- A step that lets an activation begin begins a disciplined one, and no other
operation changes the value of a mutex. -/
def Threads.Allowed (S : Threads T A E O R σ) (ok : List A → O → Prop) (c : Pool T A O R σ)
    (e : Happening T E O) (c' : Pool T A O R σ) : Prop :=
  match e with
  | .enter t e => S.Disciplined ok (taken (c.stack t)) [] (S.program t e)
  | .leave _ => True
  | .perform _ o => S.kind o = .other → ∀ a, S.mutex a = true → c'.value a = c.value a

section step

variable (h : S.Locked ok c)

include h

/-- The stack of one thread changes, but not what it has taken. -/
theorem Threads.Locked.setStack {fs' : List (Frame A O R)} (hdisc : S.StackDisciplined ok fs')
    (htaken : taken fs' = taken (c.stack t)) (hdead : c.dead t = false) :
    S.Locked ok (c.setStack t fs') := by
  have hsame : ∀ u, taken ((c.setStack t fs').stack u) = taken (c.stack u) := by
    intro u
    by_cases hu : u = t
    · subst hu
      simpa [Pool.setStack] using htaken
    · simp [Pool.setStack, hu]
  refine ⟨fun u => ?_, fun u => ?_, fun a ha => ?_, fun u => ?_, fun u hu => ?_⟩
  · by_cases hu : u = t
    · subst hu
      simpa [Pool.setStack] using hdisc
    · simpa [Pool.setStack, hu] using h.disciplined u
  · rw [hsame]
    exact h.nodup u
  · exact (h.exclusive a ha).congr rfl rfl fun u => by rw [hsame]
  · rw [hsame]
    exact h.mutexes u
  · have hut : u ≠ t := by
      rintro rfl
      exact absurd (hdead.symm.trans hu) (by simp)
    simpa [Pool.setStack, hut] using h.dead u hu

/-- A P on a mutex. -/
theorem Threads.Locked.passeren {k' : Prog O R Unit} (hstack : c.stack t = ⟨.call o k, held⟩ :: fs)
    (hdead : c.dead t = false) (hmutex : S.mutex a = true) (hnew : a ∉ taken (c.stack t))
    (hrest : S.Disciplined ok (taken fs) (a :: held) k') :
    S.Locked ok ((c.passeren t a).setStack t (⟨k', a :: held⟩ :: fs)) := by
  have htaken : ∀ u, taken (((c.passeren t a).setStack t (⟨k', a :: held⟩ :: fs)).stack u) =
      if u = t then a :: taken (c.stack t) else taken (c.stack u) := by
    intro u
    by_cases hu : u = t
    · subst hu
      simp [Pool.setStack, hstack]
    · simp [Pool.setStack, Pool.passeren, hu]
  refine ⟨fun u => ?_, fun u => ?_, fun b hb => ?_, fun u => ?_, fun u hu => ?_⟩
  · by_cases hu : u = t
    · subst hu
      have hfs := h.disciplined u
      rw [hstack] at hfs
      simpa [Pool.setStack] using
        (show S.StackDisciplined ok (⟨k', a :: held⟩ :: fs) from ⟨hrest, hfs.2⟩)
    · simpa [Pool.setStack, Pool.passeren, hu] using h.disciplined u
  · rw [htaken]
    split
    · exact List.nodup_cons.mpr ⟨hnew, h.nodup t⟩
    · exact h.nodup u
  · by_cases hba : b = a
    · subst hba
      cases h.exclusive b hb with
      | free hv hq hnone =>
        refine .owned t ?_ ?_ fun u => ?_
        · simp [Pool.setStack, Pool.passeren, hv, hq]
        · simp [Pool.setStack, Pool.passeren, hv, hq]
        · rw [htaken]
          by_cases hu : u = t
          · simp [hu]
          · simp [hu, hnone u, Pool.setStack, Pool.passeren, hv, hq]
      | owned w hv hnodup howner =>
        have htw : t ∉ w :: c.queue b := fun hmem => hnew ((howner t).mpr hmem)
        have hneg : c.value b - 1 < 0 := by
          rw [hv]
          omega
        refine .owned w ?_ ?_ fun u => ?_
        · simp only [Pool.setStack, Pool.passeren, if_pos hneg, Function.update_self,
            List.length_append, List.length_singleton]
          rw [hv]
          omega
        · simp only [Pool.setStack, Pool.passeren, if_pos hneg, Function.update_self]
          rw [← List.cons_append]
          exact List.nodup_append.mpr ⟨hnodup, List.nodup_singleton t, by
            rintro x hx y hy rfl
            exact htw (List.mem_singleton.mp hy ▸ hx)⟩
        · simp only [Pool.setStack, Pool.passeren, if_pos hneg, Function.update_self] at htaken ⊢
          rw [htaken]
          by_cases hu : u = t
          · simp [hu]
          · simp only [hu, if_false, howner u]
            simp [hu]
    · refine (h.exclusive b hb).congr ?_ ?_ fun u => ?_
      · simp [Pool.setStack, Pool.passeren, hba]
      · simp only [Pool.setStack, Pool.passeren]
        split <;> simp [hba]
      · rw [htaken]
        split
        · rename_i hu
          simp [hu, hba]
        · exact Iff.rfl
  · rw [htaken]
    split
    · intro b hb
      rcases List.mem_cons.mp hb with rfl | hb
      · exact hmutex
      · exact h.mutexes t b hb
    · exact h.mutexes u
  · have hut : u ≠ t := by
      rintro rfl
      exact absurd (hdead.symm.trans hu) (by simp)
    simpa [Pool.setStack, Pool.passeren, hut] using h.dead u hu

/-- A V on a mutex that the thread has taken. -/
theorem Threads.Locked.verhogen {k' : Prog O R Unit} (hstack : c.stack t = ⟨.call o k, held⟩ :: fs)
    (hrun : c.Running t) (hmutex : S.mutex a = true) (hheld : a ∈ held)
    (hrest : S.Disciplined ok (taken fs) (held.erase a) k') :
    S.Locked ok ((c.verhogen a).setStack t (⟨k', held.erase a⟩ :: fs)) := by
  have hnodup := h.nodup t
  rw [hstack, taken_cons] at hnodup
  have hheldnodup : held.Nodup := (List.nodup_append.mp hnodup).1
  have hfs : a ∉ taken fs := fun hmem => (List.nodup_append.mp hnodup).2.2 a hheld a hmem rfl
  have hsub : (held.erase a ++ taken fs).Sublist (held ++ taken fs) :=
    List.Sublist.append List.erase_sublist (List.Sublist.refl _)
  have htaken : ∀ u, taken (((c.verhogen a).setStack t (⟨k', held.erase a⟩ :: fs)).stack u) =
      if u = t then held.erase a ++ taken fs else taken (c.stack u) := by
    intro u
    by_cases hu : u = t
    · subst hu
      simp [Pool.setStack]
    · simp [Pool.setStack, Pool.verhogen, hu]
  have htmem : a ∈ taken (c.stack t) := by
    rw [hstack]
    exact List.mem_append_left _ hheld
  have hgone : a ∉ held.erase a ++ taken fs := by
    intro hmem
    rcases List.mem_append.mp hmem with hmem | hmem
    · exact (hheldnodup.mem_erase_iff.mp hmem).1 rfl
    · exact hfs hmem
  refine ⟨fun u => ?_, fun u => ?_, fun b hb => ?_, fun u => ?_, fun u hu => ?_⟩
  · by_cases hu : u = t
    · subst hu
      have hdisc := h.disciplined u
      rw [hstack] at hdisc
      simpa [Pool.setStack] using
        (show S.StackDisciplined ok (⟨k', held.erase a⟩ :: fs) from ⟨hrest, hdisc.2⟩)
    · simpa [Pool.setStack, Pool.verhogen, hu] using h.disciplined u
  · rw [htaken]
    split
    · exact hnodup.sublist hsub
    · exact h.nodup u
  · by_cases hba : b = a
    · subst hba
      cases h.exclusive b hb with
      | free _ _ hnone => exact absurd htmem (hnone t)
      | owned w hv hwnodup howner =>
        have htq : t ∉ c.queue b := fun hmem => hrun.ready ⟨b, hmem⟩
        obtain rfl : t = w := (List.mem_cons.mp ((howner t).mp htmem)).resolve_right htq
        cases hq : c.queue b with
        | nil =>
          rw [hq] at hv howner
          refine .free ?_ ?_ fun u => ?_
          · simp [Pool.setStack, Pool.verhogen, hv]
          · simp [Pool.setStack, Pool.verhogen, hv, hq]
          · rw [htaken]
            split
            · exact hgone
            · rename_i hu
              rw [howner]
              simpa using hu
        | cons w rest =>
          rw [hq] at hv howner hwnodup
          have hle : c.value b + 1 ≤ 0 := by
            rw [hv, List.length_cons]
            omega
          have htw := (List.nodup_cons.mp hwnodup).1
          refine .owned w ?_ ?_ fun u => ?_
          · simp only [Pool.setStack, Pool.verhogen, if_pos hle, Function.update_self, hq,
              List.tail_cons]
            rw [hv, List.length_cons]
            omega
          · simp only [Pool.setStack, Pool.verhogen, if_pos hle, Function.update_self, hq,
              List.tail_cons]
            exact (List.nodup_cons.mp hwnodup).2
          · rw [htaken]
            simp only [Pool.setStack, Pool.verhogen, if_pos hle, Function.update_self, hq,
              List.tail_cons]
            by_cases hu : u = t
            · subst hu
              simp only [if_true]
              exact ⟨fun hmem => absurd hmem hgone, fun hmem => absurd hmem htw⟩
            · simp only [hu, if_false, howner u]
              simp [hu]
    · refine (h.exclusive b hb).congr ?_ ?_ fun u => ?_
      · simp [Pool.setStack, Pool.verhogen, hba]
      · simp only [Pool.setStack, Pool.verhogen]
        split <;> simp [hba]
      · rw [htaken]
        split
        · rename_i hu
          subst hu
          rw [hstack, taken_cons]
          simp [hba]
        · exact Iff.rfl
  · rw [htaken]
    split
    · intro b hb
      refine h.mutexes t b ?_
      rw [hstack]
      exact hsub.subset hb
    · exact h.mutexes u
  · have hut : u ≠ t := by
      rintro rfl
      exact absurd (hrun.dead.symm.trans hu) (by simp)
    simpa [Pool.setStack, Pool.verhogen, hut] using h.dead u hu

omit [DecidableEq T] in
/-- Changes that leave the mutexes and the stacks as they are. -/
theorem Threads.Locked.congr (hvalue : ∀ a, S.mutex a = true → c'.value a = c.value a)
    (hqueue : ∀ a, S.mutex a = true → c'.queue a = c.queue a) (hstack : c'.stack = c.stack)
    (hdead : c'.dead = c.dead) : S.Locked ok c' := by
  refine ⟨?_, ?_, fun a ha => ?_, ?_, ?_⟩
  · rw [hstack]
    exact h.disciplined
  · rw [hstack]
    exact h.nodup
  · exact (h.exclusive a ha).congr (hvalue a ha) (hqueue a ha) fun t => by rw [hstack]
  · rw [hstack]
    exact h.mutexes
  · rw [hstack, hdead]
    exact h.dead

end step

/-- One step of a thread keeps the mutexes in order. -/
theorem Threads.Locked.step {e : Happening T E O} (h : S.Locked ok c) (hstep : S.Step c e c')
    (hallowed : S.Allowed ok c e c') : S.Locked ok c' := by
  cases hstep with
  | @enter t e s' hrun _ =>
    have hbegun : S.Locked ok (c.setStack t (⟨S.program t e, []⟩ :: c.stack t)) :=
      h.setStack ⟨hallowed, h.disciplined t⟩ rfl hrun.dead
    exact hbegun.congr (fun _ _ => rfl) (fun _ _ => rfl) rfl rfl
  | @leave t held fs hrun hstack =>
    have hdisc := h.disciplined t
    rw [hstack] at hdisc
    obtain rfl : held = [] := hdisc.1
    exact h.setStack hdisc.2 (by rw [hstack]; rfl) hrun.dead
  | @passeren t o k held fs a r hrun hstack hkind =>
    have hdisc := h.disciplined t
    rw [hstack] at hdisc
    obtain ⟨⟨hpre, hpost⟩, hfs⟩ := hdisc
    have hrest := hpost r (S.take a held) (by simp [Threads.lockContract, hkind])
    cases hmutex : S.mutex a with
    | true =>
      simp only [Threads.lockContract, hkind] at hpre
      simp only [Threads.take, hmutex, if_true] at hrest ⊢
      refine h.passeren hstack hrun.dead hmutex ?_ hrest
      rw [hstack]
      exact hpre hmutex
    | false =>
      have htake : S.take a held = held := by simp [Threads.take, hmutex]
      rw [htake] at hrest ⊢
      have hnext : S.Locked ok (c.setStack t (⟨k r, held⟩ :: fs)) :=
        h.setStack ⟨hrest, hfs⟩ (by rw [hstack]; rfl) hrun.dead
      refine hnext.congr (fun b hb => ?_) (fun b hb => ?_) rfl rfl
      all_goals
        have hba : b ≠ a := by
          rintro rfl
          exact absurd (hmutex.symm.trans hb) (by simp)
        simp only [Pool.setStack, Pool.passeren]
      · simp [hba]
      · split <;> simp [hba]
  | @verhogen t o k held fs a r hrun hstack hkind =>
    have hdisc := h.disciplined t
    rw [hstack] at hdisc
    obtain ⟨⟨hpre, hpost⟩, hfs⟩ := hdisc
    have hrest := hpost r (S.give a held) (by simp [Threads.lockContract, hkind])
    cases hmutex : S.mutex a with
    | true =>
      simp only [Threads.lockContract, hkind] at hpre
      simp only [Threads.give, hmutex, if_true] at hrest ⊢
      exact h.verhogen hstack hrun hmutex (hpre hmutex) hrest
    | false =>
      have hgive : S.give a held = held := by simp [Threads.give, hmutex]
      rw [hgive] at hrest ⊢
      have hnext : S.Locked ok (c.setStack t (⟨k r, held⟩ :: fs)) :=
        h.setStack ⟨hrest, hfs⟩ (by rw [hstack]; rfl) hrun.dead
      refine hnext.congr (fun b hb => ?_) (fun b hb => ?_) rfl rfl
      all_goals
        have hba : b ≠ a := by
          rintro rfl
          exact absurd (hmutex.symm.trans hb) (by simp)
        simp only [Pool.setStack, Pool.verhogen]
      · simp [hba]
      · split <;> simp [hba]
  | @exit t o k held fs hrun hstack hkind =>
    have hdisc := h.disciplined t
    rw [hstack] at hdisc
    have hnone : held ++ taken fs = [] := by
      have hpre := hdisc.1.1
      simpa only [Threads.lockContract, hkind] using hpre
    have hended : S.Locked ok (c.setStack t []) :=
      h.setStack trivial (by rw [hstack, taken_cons, hnone]; rfl) hrun.dead
    refine ⟨hended.disciplined, hended.nodup, fun a ha => ?_, hended.mutexes, fun u hu => ?_⟩
    · exact (hended.exclusive a ha).congr rfl rfl fun _ => Iff.rfl
    · by_cases hut : u = t
      · subst hut
        simp [Pool.setStack]
      · simp only [Function.update_of_ne hut] at hu
        exact hended.dead u hu
  | halt _ _ _ => exact h.congr (fun _ _ => rfl) (fun _ _ => rfl) rfl rfl
  | @other t o k held fs r v' s' hrun hstack hkind _ =>
    have hdisc := h.disciplined t
    rw [hstack] at hdisc
    obtain ⟨⟨-, hpost⟩, hfs⟩ := hdisc
    have hrest := hpost r held (by simp [Threads.lockContract, hkind])
    have hnext : S.Locked ok (c.setStack t (⟨k r, held⟩ :: fs)) :=
      h.setStack ⟨hrest, hfs⟩ (by rw [hstack]; rfl) hrun.dead
    exact hnext.congr (hallowed hkind) (fun _ _ => rfl) rfl rfl

omit [DecidableEq T] in
/-- Two threads do not have the same mutex. -/
theorem Threads.Locked.holds_unique (h : S.Locked ok c) (hmutex : S.mutex a = true)
    (ht : c.Holds t a) (ht' : c.Holds t' a) : t = t' := by
  obtain ⟨⟨f, hf, hmem⟩, hq⟩ := ht
  obtain ⟨⟨f', hf', hmem'⟩, hq'⟩ := ht'
  exact (h.exclusive a hmutex).eq hq hq' (List.mem_flatMap.mpr ⟨f, hf, hmem⟩)
    (List.mem_flatMap.mpr ⟨f', hf', hmem'⟩)

omit [DecidableEq T] in
/-- A mutex that no living thread has or waits for is free. -/
theorem Threads.Locked.value_eq (h : S.Locked ok c) (hmutex : S.mutex a = true)
    (hnone : ∀ t, c.dead t = false → ¬ c.Holds t a ∧ t ∉ c.queue a) : c.value a = 1 := by
  cases h.exclusive a hmutex with
  | free hv _ _ => exact hv
  | owned u hv hnodup howner =>
    have hmem : a ∈ taken (c.stack u) := (howner u).mpr List.mem_cons_self
    have hlive : c.dead u = false := by
      by_contra hdead
      rw [h.dead u (by simpa using hdead)] at hmem
      exact absurd hmem (by simp)
    obtain ⟨hholds, hq⟩ := hnone u hlive
    obtain ⟨f, hf, hheld⟩ := List.mem_flatMap.mp hmem
    exact absurd ⟨⟨f, hf, hheld⟩, hq⟩ hholds

omit [DecidableEq T] in
/-- An activation that returns has given everything back. -/
theorem Threads.Locked.returned (h : S.Locked ok c) (hstack : c.stack t = ⟨.ret (), held⟩ :: fs) :
    held = [] := by
  have hdisc := h.disciplined t
  rw [hstack] at hdisc
  exact hdisc.1

omit [DecidableEq T] in
/-- A thread that ends has given everything back. -/
theorem Threads.Locked.ended (h : S.Locked ok c) (hstack : c.stack t = ⟨.call o k, held⟩ :: fs)
    (hkind : S.kind o = .exit) : taken (c.stack t) = [] := by
  have hdisc := h.disciplined t
  rw [hstack] at hdisc
  have hpre := hdisc.1.1
  simp only [Threads.lockContract, hkind] at hpre
  rw [hstack, taken_cons]
  exact hpre

omit [DecidableEq T] in
/-- What a thread has taken when it performs an operation that is no P or V. -/
theorem Threads.Locked.during (h : S.Locked ok c) (hstack : c.stack t = ⟨.call o k, held⟩ :: fs)
    (hkind : S.kind o = .other) : ok (taken (c.stack t)) o := by
  have hdisc := h.disciplined t
  rw [hstack] at hdisc
  have hpre := hdisc.1.1
  simp only [Threads.lockContract, hkind] at hpre
  rw [hstack, taken_cons]
  exact hpre

end Exec
