import Kaya.Exec.Refine
import Kaya.Exec.Threads
import Mathlib.Data.List.Nodup

/-! Semaphores `A` that threads `T` do Ps and Vs on, and threads that are killed while they
wait. -/

namespace Exec

/-- The values, and who waits for each semaphore, longest waiting first. -/
structure Semaphores (A T : Type) where
  value : A → Int
  queue : A → List T

inductive SemEvent (A T : Type) where
  | wait (t : T) (a : A)
  | signal (t : T) (a : A)
  | kill (l : List T)
  deriving DecidableEq

def SemEvent.semaphore {A T : Type} : SemEvent A T → Option A
  | .wait _ a => some a
  | .signal _ a => some a
  | .kill _ => none

/-- The same event under other names. -/
def SemEvent.rename {A A' T T' : Type} (f : A → A') (g : T → T') : SemEvent A T → SemEvent A' T'
  | .wait t a => .wait (g t) (f a)
  | .signal t a => .signal (g t) (f a)
  | .kill l => .kill (l.map g)

namespace Semaphores

variable {A T : Type} [DecidableEq A] [DecidableEq T]

def after (m : Semaphores A T) : SemEvent A T → Semaphores A T
  | .wait t a =>
    { value := Function.update m.value a (m.value a - 1)
      queue := if m.value a - 1 < 0 then Function.update m.queue a (m.queue a ++ [t]) else m.queue }
  | .signal _ a =>
    { value := Function.update m.value a (m.value a + 1)
      queue := if m.value a + 1 ≤ 0 then Function.update m.queue a (m.queue a).tail else m.queue }
  -- everyone who does not wait any more is made up for
  | .kill l =>
    { value := fun a => m.value a + (m.queue a).countP (· ∈ l)
      queue := fun a => (m.queue a).filter (· ∉ l) }

def system (A T : Type) [DecidableEq A] [DecidableEq T] : System (Semaphores A T) (SemEvent A T) where
  init _ := True
  step m e m' := m' = m.after e

/-- A thread has done a P, and no V since. -/
def has (a : A) (t : T) : Bool → SemEvent A T → Bool
  | b, .wait u x => if u = t ∧ x = a then true else b
  | b, .signal u x => if u = t ∧ x = a then false else b
  | b, .kill l => if t ∈ l then false else b

/-- The semaphore is used as a mutex: a thread does a P on it only while it does not have
it, and a V only while it does. -/
def Permits (a : A) (h : T → Bool) (m : Semaphores A T) : SemEvent A T → Prop
  | .wait t x => x = a → h t = false
  | .signal t x => x = a → h t = true ∧ t ∉ m.queue a
  | .kill _ => True

/-- No thread is killed while it has the mutex. -/
def Spares (a : A) (h : T → Bool) (m : Semaphores A T) : SemEvent A T → Prop
  | .kill l => ∀ t ∈ l, h t = true → t ∈ m.queue a
  | _ => True

/-- A mutex: a thread that waits has done its P, and at most one other thread has. -/
structure Excludes (a : A) (h : T → Bool) (m : Semaphores A T) : Prop where
  nodup : (m.queue a).Nodup
  queued : ∀ t ∈ m.queue a, h t = true
  balanced : ((m.queue a).length : Int) = max 0 (-m.value a)
  le_one : m.value a ≤ 1
  taken : ∀ t, h t = true → t ∉ m.queue a → m.value a ≤ 0
  unique : ∀ t t', h t = true → h t' = true → t ∉ m.queue a → t' ∉ m.queue a → t = t'

variable {a x : A} {h : T → Bool} {m : Semaphores A T} {e : SemEvent A T} {t : T} {l : List T}

/-- P and V leave the other semaphores alone. -/
theorem after_of_ne {b : A} (hon : e.semaphore = some b) (hab : a ≠ b) :
    (m.after e).value a = m.value a ∧ (m.after e).queue a = m.queue a := by
  cases e with
  | wait t x =>
    obtain rfl := Option.some.inj hon
    refine ⟨Function.update_of_ne hab _ _, ?_⟩
    simp only [after]
    split
    · exact Function.update_of_ne hab _ _
    · rfl
  | signal t x =>
    obtain rfl := Option.some.inj hon
    refine ⟨Function.update_of_ne hab _ _, ?_⟩
    simp only [after]
    split
    · exact Function.update_of_ne hab _ _
    · rfl
  | kill l => exact absurd hon (by simp [SemEvent.semaphore])

omit [DecidableEq A] [DecidableEq T] in
/-- Other semaphores do not matter. -/
theorem Excludes.congr {m' : Semaphores A T} {h' : T → Bool} (hm : Excludes a h m)
    (hvalue : m'.value a = m.value a) (hqueue : m'.queue a = m.queue a) (hhas : h' = h) :
    Excludes a h' m' := by
  subst hhas
  constructor
  · rw [hqueue]
    exact hm.nodup
  · rw [hqueue]
    exact hm.queued
  · rw [hqueue, hvalue]
    exact hm.balanced
  · rw [hvalue]
    exact hm.le_one
  · rw [hqueue, hvalue]
    exact hm.taken
  · rw [hqueue]
    exact hm.unique

theorem Excludes.wait (hm : Excludes a h m) (ht : h t = false) :
    Excludes a (fun u => has a u (h u) (.wait t a)) (m.after (.wait t a)) := by
  have hnew : t ∉ m.queue a := fun hmem => by simp [hm.queued t hmem] at ht
  have hbalanced := hm.balanced
  have hle := hm.le_one
  have hhas : ∀ u, has a u (h u) (.wait t a) = true ↔ u = t ∨ h u = true := by
    intro u
    by_cases hut : t = u
    · simp [has, hut]
    · simp [has, hut, Ne.symm hut]
  by_cases hblock : m.value a - 1 < 0
  · -- `t` waits
    have hqueue : (m.after (.wait t a)).queue a = m.queue a ++ [t] := by simp [after, hblock]
    have hvalue : (m.after (.wait t a)).value a = m.value a - 1 := by simp [after]
    have hold : ∀ u, u ∉ m.queue a ++ [t] → (u = t ∨ h u = true) → h u = true ∧ u ∉ m.queue a := by
      intro u hu hhas
      simp only [List.mem_append, List.mem_singleton, not_or] at hu
      exact ⟨hhas.resolve_left hu.2, hu.1⟩
    constructor
    · rw [hqueue]
      exact List.nodup_append.mpr ⟨hm.nodup, List.nodup_singleton t,
        by simp; rintro x hx rfl; exact hnew hx⟩
    · intro u hu
      rw [hqueue, List.mem_append, List.mem_singleton] at hu
      exact (hhas u).mpr (hu.symm.imp_right (hm.queued u))
    · rw [hqueue, hvalue, List.length_append, List.length_singleton]
      push_cast
      omega
    · omega
    · omega
    · intro u u' hu hu' hnot hnot'
      rw [hqueue] at hnot hnot'
      obtain ⟨hu, hnot⟩ := hold u hnot ((hhas u).mp hu)
      obtain ⟨hu', hnot'⟩ := hold u' hnot' ((hhas u').mp hu')
      exact hm.unique u u' hu hu' hnot hnot'
  · -- nobody has it, and `t` takes it
    have hqueue : (m.after (.wait t a)).queue a = m.queue a := by simp [after, hblock]
    have hvalue : (m.after (.wait t a)).value a = m.value a - 1 := by simp [after]
    have hnobody : ∀ u, h u = true → u ∈ m.queue a := by
      intro u hu
      by_contra hnot
      have := hm.taken u hu hnot
      omega
    have hempty : m.queue a = [] := by
      apply List.length_eq_zero_iff.mp
      omega
    constructor
    · rw [hqueue]
      exact hm.nodup
    · intro u hu
      rw [hqueue, hempty] at hu
      exact absurd hu List.not_mem_nil
    · rw [hqueue, hvalue]
      omega
    · omega
    · omega
    · intro u u' hu hu' _ _
      have hall : ∀ u, has a u (h u) (.wait t a) = true → u = t := by
        intro u hu
        refine ((hhas u).mp hu).resolve_right fun hold => ?_
        have hmem := hnobody u hold
        rw [hempty] at hmem
        exact absurd hmem List.not_mem_nil
      rw [hall u hu, hall u' hu']

theorem Excludes.signal (hm : Excludes a h m) (ht : h t = true) (hnot : t ∉ m.queue a) :
    Excludes a (fun u => has a u (h u) (.signal t a)) (m.after (.signal t a)) := by
  have hbalanced := hm.balanced
  have hle := hm.taken t ht hnot
  have hhas : ∀ u, has a u (h u) (.signal t a) = true ↔ u ≠ t ∧ h u = true := by
    intro u
    by_cases hut : t = u
    · simp [has, hut]
    · simp [has, hut, Ne.symm hut]
  have hvalue : (m.after (.signal t a)).value a = m.value a + 1 := by simp [after]
  have halone : ∀ u, u ≠ t → h u = true → u ∈ m.queue a := by
    intro u hut hu
    by_contra hout
    exact hut (hm.unique u t hu ht hout hnot)
  cases hcase : m.queue a with
  | nil =>
    have hzero : m.value a = 0 := by
      rw [hcase] at hbalanced
      simp at hbalanced
      omega
    have hqueue : (m.after (.signal t a)).queue a = [] := by simp [after, hzero, hcase]
    have hnone : ∀ u, has a u (h u) (.signal t a) ≠ true := by
      intro u hu
      obtain ⟨hut, hu⟩ := (hhas u).mp hu
      have hmem := halone u hut hu
      rw [hcase] at hmem
      exact absurd hmem List.not_mem_nil
    refine ⟨?_, ?_, ?_, by omega, ?_, ?_⟩
    · simp [hqueue]
    · simp [hqueue]
    · rw [hqueue, hvalue, hzero]
      rfl
    · exact fun u hu => absurd hu (hnone u)
    · exact fun u _ hu => absurd hu (hnone u)
  | cons x rest =>
    rw [hcase, List.length_cons] at hbalanced
    push_cast at hbalanced
    have hwake : m.value a + 1 ≤ 0 := by omega
    have hqueue : (m.after (.signal t a)).queue a = rest := by simp [after, hwake, hcase]
    have hnodup := hm.nodup
    rw [hcase, List.nodup_cons] at hnodup
    rw [hcase] at hnot
    have hrest : ∀ u ∈ rest, u ≠ t := by
      rintro u hu rfl
      exact hnot (List.mem_cons_of_mem _ hu)
    have hnext : ∀ u, has a u (h u) (.signal t a) = true → u ∉ rest → u = x := by
      -- who has it and does not wait is the one that is woken
      intro u hu hout
      obtain ⟨hut, hu⟩ := (hhas u).mp hu
      have hmem := halone u hut hu
      rw [hcase] at hmem
      exact (List.mem_cons.mp hmem).resolve_right hout
    refine ⟨?_, fun u hu => ?_, ?_, by omega, fun _ _ _ => by omega, fun u u' hu hu' hout hout' => ?_⟩
    · rw [hqueue]
      exact hnodup.2
    · rw [hqueue] at hu
      refine (hhas u).mpr ⟨hrest u hu, hm.queued u ?_⟩
      rw [hcase]
      exact List.mem_cons_of_mem _ hu
    · rw [hqueue, hvalue]
      omega
    · rw [hqueue] at hout hout'
      rw [hnext u hu hout, hnext u' hu' hout']

theorem Excludes.kill (hm : Excludes a h m) :
    Excludes a (fun u => has a u (h u) (.kill l)) (m.after (.kill l)) := by
  have hbalanced := hm.balanced
  have hle := hm.le_one
  have hsplit : (m.queue a).length =
      (m.queue a).countP (· ∈ l) + ((m.queue a).filter (· ∉ l)).length := by
    rw [List.countP_eq_length_filter, List.length_eq_length_filter_add (· ∈ l)]
    simp
  have hvalue : (m.after (.kill l)).value a = m.value a + (m.queue a).countP (· ∈ l) := rfl
  have hqueue : (m.after (.kill l)).queue a = (m.queue a).filter (· ∉ l) := rfl
  have hhas : ∀ u, has a u (h u) (.kill l) = true ↔ u ∉ l ∧ h u = true := by
    intro u
    by_cases hu : u ∈ l <;> simp [has, hu]
  have hstays : ∀ u, u ∉ l → u ∉ (m.queue a).filter (· ∉ l) → u ∉ m.queue a := by
    intro u hu hout hmem
    exact hout (List.mem_filter.mpr ⟨hmem, by simpa using hu⟩)
  constructor
  · rw [hqueue]
    exact hm.nodup.filter _
  · intro u hu
    rw [hqueue, List.mem_filter] at hu
    exact (hhas u).mpr ⟨by simpa using hu.2, hm.queued u hu.1⟩
  · rw [hqueue, hvalue]
    omega
  · omega
  · intro u hu hout
    obtain ⟨hul, hu⟩ := (hhas u).mp hu
    have := hm.taken u hu (hstays u hul hout)
    omega
  · intro u u' hu hu' hout hout'
    obtain ⟨hul, hu⟩ := (hhas u).mp hu
    obtain ⟨hul', hu'⟩ := (hhas u').mp hu'
    exact hm.unique u u' hu hu' (hstays u hul hout) (hstays u' hul' hout')

/-- One event, on whatever semaphore. -/
theorem Excludes.step (hm : Excludes a h m) (hpermits : Permits a h m e) :
    Excludes a (fun u => has a u (h u) e) (m.after e) := by
  cases e with
  | wait t x =>
    by_cases hx : x = a
    · subst hx
      exact hm.wait (hpermits rfl)
    · obtain ⟨hvalue, hqueue⟩ := after_of_ne (m := m) (e := .wait t x) rfl (Ne.symm hx)
      exact hm.congr hvalue hqueue (by simp [has, hx])
  | signal t x =>
    by_cases hx : x = a
    · subst hx
      exact hm.signal (hpermits rfl).1 (hpermits rfl).2
    · obtain ⟨hvalue, hqueue⟩ := after_of_ne (m := m) (e := .signal t x) rfl (Ne.symm hx)
      exact hm.congr hvalue hqueue (by simp [has, hx])
  | kill l => exact hm.kill

/-- The mutex is free or a thread has it. -/
def Kept (a : A) (h : T → Bool) (m : Semaphores A T) : Prop :=
  m.value a = 1 ∨ ∃ t, h t = true ∧ t ∉ m.queue a

/-- Who has the mutex still has it when others act. -/
theorem has_of_ne {u : T} (hon : e = .wait u x ∨ e = .signal u x) (htu : u ≠ t) :
    has a t (h t) e = h t := by
  obtain rfl | rfl := hon <;> simp [has, htu]

theorem Kept.step (hkept : Kept a h m) (hm : Excludes a h m) (hpermits : Permits a h m e)
    (hspares : Spares a h m e) : Kept a (fun u => has a u (h u) e) (m.after e) := by
  have hbalanced := hm.balanced
  cases e with
  | wait t x =>
    by_cases hx : x = a
    · subst hx
      have ht : h t = false := hpermits rfl
      have htake : has x t (h t) (.wait t x) = true := by simp [has]
      by_cases hblock : m.value x - 1 < 0
      · have hqueue : (m.after (.wait t x)).queue x = m.queue x ++ [t] := by simp [after, hblock]
        obtain ⟨u, hu, hout⟩ := hkept.resolve_left (by omega)
        have hut : t ≠ u := by
          rintro rfl
          simp [ht] at hu
        refine .inr ⟨u, (has_of_ne (.inl rfl) hut).trans hu, ?_⟩
        rw [hqueue]
        simp [hout, hut.symm]
      · have hqueue : (m.after (.wait t x)).queue x = m.queue x := by simp [after, hblock]
        refine .inr ⟨t, htake, ?_⟩
        rw [hqueue]
        exact fun hmem => by simp [hm.queued t hmem] at ht
    · obtain ⟨hvalue, hqueue⟩ := after_of_ne (m := m) (e := .wait t x) rfl (Ne.symm hx)
      have hsame : (fun u => has a u (h u) (.wait t x)) = h := by simp [has, hx]
      rw [hsame, Kept, hvalue, hqueue]
      exact hkept
  | signal t x =>
    by_cases hx : x = a
    · subst hx
      obtain ⟨ht, hnot⟩ := hpermits rfl
      have hle := hm.taken t ht hnot
      cases hcase : m.queue x with
      | nil =>
        rw [hcase, List.length_nil] at hbalanced
        left
        simp only [after, Function.update_self]
        omega
      | cons y rest =>
        rw [hcase, List.length_cons] at hbalanced
        push_cast at hbalanced
        have hwake : m.value x + 1 ≤ 0 := by omega
        have hqueue : (m.after (.signal t x)).queue x = rest := by simp [after, hwake, hcase]
        have hnodup := hm.nodup
        rw [hcase, List.nodup_cons] at hnodup
        have hmem : y ∈ m.queue x := by
          rw [hcase]
          exact List.mem_cons_self
        have hty : t ≠ y := by
          rintro rfl
          exact hnot hmem
        refine .inr ⟨y, (has_of_ne (.inr rfl) hty).trans (hm.queued y hmem), ?_⟩
        rw [hqueue]
        exact hnodup.1
    · obtain ⟨hvalue, hqueue⟩ := after_of_ne (m := m) (e := .signal t x) rfl (Ne.symm hx)
      have hsame : (fun u => has a u (h u) (.signal t x)) = h := by simp [has, hx]
      rw [hsame, Kept, hvalue, hqueue]
      exact hkept
  | kill l =>
    obtain hfree | ⟨t, ht, hout⟩ := hkept
    · left
      have hnobody : m.queue a = [] := by
        apply List.length_eq_zero_iff.mp
        omega
      simp [after, hnobody, hfree]
    · have htl : t ∉ l := fun htl => hout (hspares t htl ht)
      refine .inr ⟨t, by simp [has, htl, ht], fun hmem => hout ?_⟩
      exact (List.mem_filter.mp hmem).1

/-- Every event of a run is as `P` demands, given who has the mutex then. -/
inductive Along (a : A) (P : (T → Bool) → Semaphores A T → SemEvent A T → Prop) :
    (T → Bool) → Semaphores A T → List (SemEvent A T) → Prop where
  | nil {h : T → Bool} {m : Semaphores A T} : Along a P h m []
  | cons {h : T → Bool} {m : Semaphores A T} {e : SemEvent A T} {es : List (SemEvent A T)} :
      P h m e → Along a P (fun t => has a t (h t) e) (m.after e) es → Along a P h m (e :: es)

variable {m' : Semaphores A T} {es : List (SemEvent A T)}

theorem Excludes.run (hm : Excludes a h m) (hpermits : Along a (Permits a) h m es)
    (hdoes : (system A T).Does m es m') : Excludes a (fun t => es.foldl (has a t) (h t)) m' := by
  induction hdoes generalizing h with
  | nil => exact hm
  | cons hstep _ ih =>
    obtain rfl := hstep
    cases hpermits with
    | cons hpermits hrest => exact ih (hm.step hpermits) hrest

theorem Kept.run (hkept : Kept a h m) (hm : Excludes a h m) (hpermits : Along a (Permits a) h m es)
    (hspares : Along a (Spares a) h m es) (hdoes : (system A T).Does m es m') :
    Kept a (fun t => es.foldl (has a t) (h t)) m' := by
  induction hdoes generalizing h with
  | nil => exact hkept
  | cons hstep _ ih =>
    obtain rfl := hstep
    cases hpermits with
    | cons hpermits hrest =>
      cases hspares with
      | cons hspares hrest' => exact ih (hkept.step hm hpermits hspares) (hm.step hpermits) hrest hrest'

/-- Who has the mutex after a run in which nobody had it at first. -/
def hasAfter (a : A) (es : List (SemEvent A T)) (t : T) : Bool := es.foldl (has a t) false

omit [DecidableEq A] [DecidableEq T] in
theorem excludes_start (hvalue : m.value a = 1) (hqueue : m.queue a = []) :
    Excludes a (fun _ => false) m := by
  refine ⟨?_, ?_, ?_, by omega, ?_, ?_⟩
  · simp [hqueue]
  · simp [hqueue]
  · rw [hqueue, hvalue]
    rfl
  · simp
  · simp

section

variable {A' T' : Type} [DecidableEq A'] [DecidableEq T'] {f : A → A'} {g : T → T'} {sems : List A}
  {n n' : Semaphores A' T'}

/-- The semaphores of `sems` are the same under other names. -/
def Agrees (f : A → A') (g : T → T') (sems : List A) (m : Semaphores A T)
    (n : Semaphores A' T') : Prop :=
  ∀ a ∈ sems, n.value (f a) = m.value a ∧ n.queue (f a) = (m.queue a).map g

omit [DecidableEq A'] in
/-- P and V on one of them. -/
theorem Agrees.after [DecidableEq A'] (hinj : ∀ a ∈ sems, ∀ b ∈ sems, f a = f b → a = b)
    (hagrees : Agrees f g sems m n) {b : A} (hb : b ∈ sems) (hon : e.semaphore = some b) :
    Agrees f g sems (m.after e) (n.after (e.rename f g)) := by
  intro a ha
  by_cases hab : a = b
  · subst hab
    obtain ⟨hvalue, hqueue⟩ := hagrees a ha
    cases e with
    | wait t x =>
      obtain rfl := Option.some.inj hon
      simp only [SemEvent.rename, Semaphores.after, hvalue, hqueue, Function.update_self, true_and]
      split <;> simp [hqueue]
    | signal t x =>
      obtain rfl := Option.some.inj hon
      simp only [SemEvent.rename, Semaphores.after, hvalue, hqueue, Function.update_self, true_and]
      split <;> simp [hqueue]
    | kill l => exact absurd hon (by simp [SemEvent.semaphore])
  · have hother : f a ≠ f b := fun heq => hab (hinj a ha b hb heq)
    have hon' : (e.rename f g).semaphore = some (f b) := by
      cases e with
      | wait t x => exact congrArg (Option.map f) hon
      | signal t x => exact congrArg (Option.map f) hon
      | kill l => exact absurd hon (by simp [SemEvent.semaphore])
    rw [(after_of_ne hon hab).1, (after_of_ne hon hab).2, (after_of_ne hon' hother).1,
      (after_of_ne hon' hother).2]
    exact hagrees a ha

/-- Semaphores on which the same Ps and Vs are made stay the same. -/
theorem Agrees.does (hinj : ∀ a ∈ sems, ∀ b ∈ sems, f a = f b → a = b)
    (hagrees : Agrees f g sems m n) (hon : ∀ e ∈ es, ∃ a ∈ sems, e.semaphore = some a)
    (hm : (system A T).Does m es m') (hn : (system A' T').Does n (es.map (SemEvent.rename f g)) n') :
    Agrees f g sems m' n' := by
  induction hm generalizing n with
  | nil =>
    cases hn
    exact hagrees
  | cons hstep _ ih =>
    obtain rfl := hstep
    obtain ⟨a, ha, he⟩ := hon _ List.mem_cons_self
    cases hn with
    | cons hstep' hrest =>
      obtain rfl := hstep'
      exact ih (hagrees.after hinj ha he) (fun e he => hon e (List.mem_cons_of_mem _ he)) hrest

end

end Semaphores

/-! The semaphores of a pool of threads. -/

section

variable {T A E O σ : Type} {R : O → Type} [DecidableEq T] [DecidableEq A] {S : Threads T A E O R σ}
  {sems : List A} {c c' : Pool T A O R σ} {y : Happening T E O} {m : Semaphores A T}

def Pool.semaphores (c : Pool T A O R σ) : Semaphores A T := ⟨c.value, c.queue⟩

/-- What is seen of a step at the semaphores of `sems`. -/
def Threads.semEvents (S : Threads T A E O R σ) (sems : List A) : Happening T E O → List (SemEvent A T)
  | .perform t o =>
    match S.kind o with
    | .passeren a => if a ∈ sems then [.wait t a] else []
    | .verhogen a => if a ∈ sems then [.signal t a] else []
    | _ => []
  | _ => []

omit [DecidableEq T] in
theorem Threads.semEvents_on (y : Happening T E O) :
    ∀ e ∈ S.semEvents sems y, ∃ a ∈ sems, e.semaphore = some a := by
  intro e he
  unfold Threads.semEvents at he
  split at he
  · split at he
    · split at he
      · obtain rfl := List.mem_singleton.mp he
        exact ⟨_, ‹_›, rfl⟩
      · exact absurd he List.not_mem_nil
    · split at he
      · obtain rfl := List.mem_singleton.mp he
        exact ⟨_, ‹_›, rfl⟩
      · exact absurd he List.not_mem_nil
    · exact absurd he List.not_mem_nil
  · exact absurd he List.not_mem_nil

/-- One P or V of a thread. -/
theorem Pool.agrees_after {e : SemEvent A T} {a : A} (hon : e.semaphore = some a)
    (hafter : c'.semaphores = c.semaphores.after e) (hsame : e.rename id id = e)
    (hagrees : Semaphores.Agrees id id sems c.semaphores m) :
    ∃ m', (Semaphores.system A T).Does m (if a ∈ sems then [e] else []) m' ∧
      Semaphores.Agrees id id sems c'.semaphores m' := by
  by_cases ha : a ∈ sems
  · rw [if_pos ha]
    refine ⟨m.after e, .single rfl, ?_⟩
    have hboth : Semaphores.Agrees id id sems (c.semaphores.after e) (m.after (e.rename id id)) :=
      hagrees.after (fun _ _ _ _ heq => heq) ha hon
    rwa [hsame, ← hafter] at hboth
  · rw [if_neg ha]
    refine ⟨m, .nil, fun b hb => ?_⟩
    have hba : b ≠ a := by
      rintro rfl
      exact ha hb
    rw [hafter, (Semaphores.after_of_ne hon hba).1, (Semaphores.after_of_ne hon hba).2]
    exact hagrees b hb

/-- Threads implement semaphores, if only their Ps and Vs change the values. -/
theorem Threads.Step.semaphores (hstep : S.Step c y c')
    (hother : ∀ t o, y = .perform t o → S.kind o = .other → c'.value = c.value)
    (hagrees : Semaphores.Agrees id id sems c.semaphores m) :
    ∃ m', (Semaphores.system A T).Does m (S.semEvents sems y) m' ∧
      Semaphores.Agrees id id sems c'.semaphores m' := by
  cases hstep with
  | enter _ _ => exact ⟨m, .nil, hagrees⟩
  | leave _ _ => exact ⟨m, .nil, hagrees⟩
  | @passeren t o _ _ _ a _ _ _ hkind =>
    simp only [Threads.semEvents, hkind]
    exact Pool.agrees_after (e := .wait t a) rfl rfl rfl hagrees
  | @verhogen t o _ _ _ a _ _ _ hkind =>
    simp only [Threads.semEvents, hkind]
    exact Pool.agrees_after (e := .signal t a) rfl rfl rfl hagrees
  | exit _ _ hkind =>
    simp only [Threads.semEvents, hkind]
    exact ⟨m, .nil, hagrees⟩
  | halt _ _ hkind =>
    simp only [Threads.semEvents, hkind]
    exact ⟨m, .nil, hagrees⟩
  | other _ _ hkind _ =>
    have hvalue := hother _ _ rfl hkind
    simp only [Threads.semEvents, hkind]
    refine ⟨m, .nil, fun b hb => ?_⟩
    exact ⟨(hagrees b hb).1.trans (congrFun hvalue b).symm, (hagrees b hb).2⟩

end

end Exec
