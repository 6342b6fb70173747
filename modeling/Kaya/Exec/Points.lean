import Kaya.Exec.Locks

/-! Threads whose programs go from one point to the next. -/

namespace Exec

variable {T A E O σ Γ : Type} {R : O → Type}

/-- The points of the programs of threads. A point tells which mutexes the program has
taken and which semaphore it may still wait for. -/
structure Threads.Points [DecidableEq A] (S : Threads T A E O R σ) (Γ : Type) where
  contract : T → Prog.Contract O R Γ
  /-- Where a program ends. -/
  rest : Γ
  /-- Where the program of an entry begins. -/
  entry : E → Γ
  held : T → Γ → List A
  awaited : T → Γ → Option A
  held_rest {t : T} : held t rest = []
  passeren {t : T} {g g' : Γ} {o : O} {r : R o} {a : A} : (contract t).post g o r g' →
    S.kind o = .passeren a → held t g' = S.take a (held t g) ∧ awaited t g' = some a
  verhogen {t : T} {g g' : Γ} {o : O} {r : R o} {a : A} : (contract t).post g o r g' →
    S.kind o = .verhogen a → held t g' = S.give a (held t g)
  other {t : T} {g g' : Γ} {o : O} {r : R o} : (contract t).post g o r g' →
    S.kind o = .other → held t g' = held t g
  lasting {t : T} {g : Γ} {o : O} : (contract t).pre g o →
    S.kind o ≠ .exit ∧ S.kind o ≠ .halt
  /-- Every answer leads to a point. -/
  answered {t : T} {g : Γ} {o : O} {r : R o} : (contract t).pre g o →
    (S.kind o = .other → ∃ x y, S.act t o x r y) → ∃ g', (contract t).post g o r g'

namespace Threads.Points

variable [DecidableEq T] [DecidableEq A] {S : Threads T A E O R σ} {P : S.Points Γ}
  {g : T → Γ} {c c' : Pool T A O R σ} {t : T} {a : A} {held : List A} {fs : List (Frame A O R)}
  {o : O} {k : R o → Prog O R Unit}

/-- From a point of its own the program leads to the end. -/
abbrev Ends (P : S.Points Γ) (t : T) (x : Γ) (p : Prog O R Unit) : Prop :=
  p.Meets (P.contract t) x fun x' _ => x' = P.rest

/-- The activations of a thread that is at a point. -/
inductive Stands (P : S.Points Γ) (t : T) (x : Γ) : List (Frame A O R) → Prop where
  | idle : x = P.rest → Stands P t x []
  | busy {p : Prog O R Unit} : P.Ends t x p → Stands P t x [⟨p, P.held t x⟩]

/-- All threads are at their points. -/
structure At (P : S.Points Γ) (g : T → Γ) (c : Pool T A O R σ) : Prop where
  stack : ∀ t, P.Stands t (g t) (c.stack t)
  queue : ∀ t a, t ∈ c.queue a → P.awaited t (g t) = some a

/-- What a step does to the points and to what the threads share. -/
inductive Turn (P : S.Points Γ) (g : T → Γ) (c c' : Pool T A O R σ) :
    Happening T E O → (T → Γ) → Prop where
  | enter {t : T} {e : E} : c.Running t → g t = P.rest → S.enters t e [] c.shared c'.shared →
      Turn P g c c' (.enter t e) (Function.update g t (P.entry e))
  | leave {t : T} : g t = P.rest → c'.shared = c.shared → Turn P g c c' (.leave t) g
  | semaphore {t : T} {o : O} {r : R o} {x : Γ} : c.Running t → S.kind o ≠ .other →
      (P.contract t).post (g t) o r x → c'.shared = c.shared →
      Turn P g c c' (.perform t o) (Function.update g t x)
  | other {t : T} {o : O} {r : R o} {x : Γ} : c.Running t → S.kind o = .other →
      (P.contract t).post (g t) o r x →
      S.act t o (c.value, c.shared) r (c'.value, c'.shared) →
      Turn P g c c' (.perform t o) (Function.update g t x)

omit [DecidableEq T] in
theorem At.rest (h : P.At g c) (hempty : c.stack t = []) : g t = P.rest := by
  have hstack := h.stack t
  rw [hempty] at hstack
  cases hstack with
  | idle hrest => exact hrest

omit [DecidableEq T] in
/-- What is left of the program of a thread when it performs an operation. -/
theorem At.call (h : P.At g c) (hstack : c.stack t = ⟨.call o k, held⟩ :: fs) :
    held = P.held t (g t) ∧ fs = [] ∧ (P.contract t).pre (g t) o ∧
      ∀ r x, (P.contract t).post (g t) o r x → P.Ends t x (k r) := by
  have hstands := h.stack t
  rw [hstack] at hstands
  cases hstands with
  | busy hends => exact ⟨rfl, rfl, hends.1, hends.2⟩

omit [DecidableEq T] in
theorem At.taken (h : P.At g c) (hmem : a ∈ P.held t (g t)) : ∃ f ∈ c.stack t, a ∈ f.held := by
  have hstands := h.stack t
  generalize c.stack t = fs at hstands
  cases hstands with
  | idle hrest =>
    rw [hrest, P.held_rest] at hmem
    exact absurd hmem List.not_mem_nil
  | busy _ => exact ⟨_, List.mem_singleton_self _, hmem⟩

omit [DecidableEq T] in
/-- Where a thread that can go on has a mutex, all others that took it may still wait. -/
theorem At.exclusive {ok : List A → O → Prop} {u : T} (h : P.At g c) (hlocked : S.Locked ok c)
    (hrun : c.Running t) (hmutex : S.mutex a = true) (hmem : a ∈ P.held t (g t)) (hne : u ≠ t)
    (hmem' : a ∈ P.held u (g u)) : P.awaited u (g u) = some a := by
  by_contra hnot
  have hholds : c.Holds t a := ⟨h.taken hmem, fun hq => hrun.ready ⟨a, hq⟩⟩
  have hholds' : c.Holds u a := ⟨h.taken hmem', fun hq => hnot (h.queue u a hq)⟩
  exact hne (hlocked.holds_unique hmutex hholds' hholds)

/-- One thread goes to another point. -/
theorem At.move (h : P.At g c) {x : Γ} (hstands : P.Stands t x (c'.stack t))
    (hothers : ∀ u, u ≠ t → c'.stack u = c.stack u)
    (hqueue : ∀ u a, u ≠ t → u ∈ c'.queue a → u ∈ c.queue a)
    (hown : ∀ a, t ∈ c'.queue a → P.awaited t x = some a) :
    P.At (Function.update g t x) c' := by
  constructor
  · refine (Function.forall_update_iff g fun u x => P.Stands u x (c'.stack u)).mpr ?_
    refine ⟨hstands, fun u hut => ?_⟩
    rw [hothers u hut]
    exact h.stack u
  · refine (Function.forall_update_iff g fun u x =>
      ∀ a, u ∈ c'.queue a → P.awaited u x = some a).mpr ?_
    exact ⟨hown, fun u hut a hu => h.queue u a (hqueue u a hut hu)⟩

/-- One step of one thread. -/
theorem At.step {e : Happening T E O} (h : P.At g c) (hstep : S.Step c e c')
    (hentry : ∀ t e s', S.enters t e (c.stack t) c.shared s' →
      c.stack t = [] ∧ P.held t (P.entry e) = [] ∧ P.Ends t (P.entry e) (S.program t e)) :
    ∃ g', P.At g' c' ∧ P.Turn g c c' e g' := by
  cases hstep with
  | @enter t e s' hrun henters =>
    obtain ⟨hempty, hheld, hends⟩ := hentry t e s' henters
    rw [hempty] at henters
    refine ⟨_, h.move ?_ ?_ (fun _ _ _ hu => hu) ?_, .enter hrun (h.rest hempty) henters⟩
    · simp only [Pool.setStack, Function.update_self, hempty]
      rw [← hheld]
      exact .busy hends
    · exact fun u hut => Function.update_of_ne hut _ _
    · exact fun a ha => absurd ⟨a, ha⟩ hrun.ready
  | @leave t held fs hrun hstack =>
    have hstands := h.stack t
    rw [hstack] at hstands
    cases hstands with
    | busy hends =>
      have hrest : g t = P.rest := hends
      have hmoved : P.At (Function.update g t (g t)) (c.setStack t []) := by
        refine h.move ?_ ?_ (fun _ _ _ hu => hu) (h.queue t)
        · rw [show (c.setStack t []).stack t = [] from Function.update_self _ _ _]
          exact .idle hrest
        · exact fun u hut => Function.update_of_ne hut _ _
      rw [Function.update_eq_self] at hmoved
      exact ⟨g, hmoved, .leave hrest rfl⟩
  | @passeren t o k held fs a r hrun hstack hkind =>
    obtain ⟨rfl, rfl, hpre, hends⟩ := h.call hstack
    obtain ⟨x, hpost⟩ := P.answered (r := r) hpre fun hother =>
      absurd (hkind.symm.trans hother) (by simp)
    obtain ⟨hheld, hawaited⟩ := P.passeren hpost hkind
    refine ⟨_, h.move ?_ ?_ ?_ ?_, .semaphore (r := r) (x := x) hrun ?_ hpost rfl⟩
    · simp only [Pool.setStack, Function.update_self]
      rw [← hheld]
      exact .busy (hends r x hpost)
    · exact fun u hut => Function.update_of_ne hut _ _
    · exact fun u b hut hu => (Pool.mem_queue_of_passeren hu).resolve_right fun hsame =>
        hut hsame.1
    · intro b hb
      rcases Pool.mem_queue_of_passeren hb with hwaits | ⟨-, rfl⟩
      · exact absurd ⟨b, hwaits⟩ hrun.ready
      · exact hawaited
    · rw [hkind]
      simp
  | @verhogen t o k held fs a r hrun hstack hkind =>
    obtain ⟨rfl, rfl, hpre, hends⟩ := h.call hstack
    obtain ⟨x, hpost⟩ := P.answered (r := r) hpre fun hother =>
      absurd (hkind.symm.trans hother) (by simp)
    refine ⟨_, h.move ?_ ?_ ?_ ?_, .semaphore (r := r) (x := x) hrun ?_ hpost rfl⟩
    · simp only [Pool.setStack, Function.update_self]
      rw [← P.verhogen hpost hkind]
      exact .busy (hends r x hpost)
    · exact fun u hut => Function.update_of_ne hut _ _
    · exact fun u b _ => Pool.mem_queue_of_verhogen
    · exact fun b hb => absurd ⟨b, Pool.mem_queue_of_verhogen hb⟩ hrun.ready
    · rw [hkind]
      simp
  | @exit t o k held fs hrun hstack hkind =>
    exact absurd hkind (P.lasting (h.call hstack).2.2.1).1
  | @halt t o k held fs hrun hstack hkind =>
    exact absurd hkind (P.lasting (h.call hstack).2.2.1).2
  | @other t o k held fs r v' s' hrun hstack hkind hact =>
    obtain ⟨rfl, rfl, hpre, hends⟩ := h.call hstack
    obtain ⟨x, hpost⟩ := P.answered (r := r) hpre fun _ => ⟨_, _, hact⟩
    refine ⟨_, h.move ?_ ?_ (fun _ _ _ hu => hu) ?_,
      .other (r := r) (x := x) hrun hkind hpost hact⟩
    · simp only [Pool.setStack, Function.update_self]
      rw [← P.other hpost hkind]
      exact .busy (hends r x hpost)
    · exact fun u hut => Function.update_of_ne hut _ _
    · exact fun a ha => absurd ⟨a, ha⟩ hrun.ready

end Threads.Points

end Exec
