import Kaya.Exec.Threads

/-! Runs in which a single thread acts. -/

namespace Exec.Threads

variable {T A E O σ : Type} {R : O → Type} [DecidableEq T] [DecidableEq A]

/-- A run in which only `t` has acted leads to these activations, semaphore values
and shared state; nobody waits. -/
def Solo (S : Threads T A E O R σ) (init : Pool T A O R σ → Prop) (t : T) (fs : List (Frame A O R))
    (v : A → Int) (s : σ) : Prop :=
  ∃ c, (S.system init).Reachable c ∧ c.stack t = fs ∧ (∀ t', t' ≠ t → c.stack t' = []) ∧
    c.value = v ∧ c.shared = s ∧ (∀ a, c.queue a = []) ∧ (∀ t, c.dead t = false) ∧ c.halted = false

variable {S : Threads T A E O R σ} {init : Pool T A O R σ → Prop} {t : T} {fs : List (Frame A O R)}
  {v v' : A → Int} {s s' : σ} {o : O} {k : R o → Prog O R Unit} {held : List A} {a : A}

/-- Where a run starts. -/
theorem Solo.start {c : Pool T A O R σ} (hinit : init c) (hstack : ∀ t, c.stack t = [])
    (hqueue : ∀ a, c.queue a = []) (hdead : ∀ t, c.dead t = false) (hhalted : c.halted = false) :
    S.Solo init t [] c.value c.shared :=
  ⟨c, .init hinit, hstack t, fun t' _ => hstack t', rfl, rfl, hqueue, hdead, hhalted⟩

theorem Solo.enter {e : E} (h : S.Solo init t fs v s) (henter : S.enters t e fs s s') :
    S.Solo init t (⟨S.program t e, []⟩ :: fs) v s' := by
  obtain ⟨c, hreach, hstack, hothers, rfl, rfl, hqueue, hdead, hhalted⟩ := h
  have hrun : c.Running t := ⟨hhalted, hdead t, fun ⟨a, hmem⟩ => by simp [hqueue] at hmem⟩
  refine ⟨_, hreach.step (.enter hrun (hstack ▸ henter)), ?_, fun t' ht => ?_, rfl, rfl, hqueue,
    hdead, hhalted⟩
  · simp [Pool.setStack, hstack]
  · simpa [Pool.setStack, ht] using hothers t' ht

/-- The rest of an activation may be written in another way. -/
theorem Solo.congr {p q : Prog O R Unit} (h : S.Solo init t (⟨p, held⟩ :: fs) v s) (hpq : p = q) :
    S.Solo init t (⟨q, held⟩ :: fs) v s := hpq ▸ h

theorem Solo.other (r : R o) (h : S.Solo init t (⟨.call o k, held⟩ :: fs) v s)
    (hkind : S.kind o = .other) (hact : S.act t o (v, s) r (v', s')) :
    S.Solo init t (⟨k r, held⟩ :: fs) v' s' := by
  obtain ⟨c, hreach, hstack, hothers, rfl, rfl, hqueue, hdead, hhalted⟩ := h
  have hrun : c.Running t := ⟨hhalted, hdead t, fun ⟨a, hmem⟩ => by simp [hqueue] at hmem⟩
  refine ⟨_, hreach.step (.other hrun hstack hkind hact), ?_, fun t' ht => ?_, rfl, rfl, hqueue,
    hdead, hhalted⟩
  · simp [Pool.setStack]
  · simpa [Pool.setStack, ht] using hothers t' ht

/-- A P that does not block. -/
theorem Solo.passeren (r : R o) (h : S.Solo init t (⟨.call o k, held⟩ :: fs) v s)
    (hkind : S.kind o = .passeren a) (hfree : 0 < v a) :
    S.Solo init t (⟨k r, S.take a held⟩ :: fs) (Function.update v a (v a - 1)) s := by
  obtain ⟨c, hreach, hstack, hothers, rfl, rfl, hqueue, hdead, hhalted⟩ := h
  have hrun : c.Running t := ⟨hhalted, hdead t, fun ⟨a, hmem⟩ => by simp [hqueue] at hmem⟩
  have hpass : ¬ c.value a - 1 < 0 := by omega
  refine ⟨_, hreach.step (.passeren (r := r) hrun hstack hkind), ?_, fun t' ht => ?_, rfl, rfl,
    fun b => ?_, hdead, hhalted⟩
  · simp [Pool.setStack]
  · simpa [Pool.setStack, Pool.passeren, ht] using hothers t' ht
  · simpa [Pool.setStack, Pool.passeren, hpass] using hqueue b

/-- A V that wakes nobody. -/
theorem Solo.verhogen (r : R o) (h : S.Solo init t (⟨.call o k, held⟩ :: fs) v s)
    (hkind : S.kind o = .verhogen a) (hfree : 0 ≤ v a) :
    S.Solo init t (⟨k r, S.give a held⟩ :: fs) (Function.update v a (v a + 1)) s := by
  obtain ⟨c, hreach, hstack, hothers, rfl, rfl, hqueue, hdead, hhalted⟩ := h
  have hrun : c.Running t := ⟨hhalted, hdead t, fun ⟨a, hmem⟩ => by simp [hqueue] at hmem⟩
  have hpass : ¬ c.value a + 1 ≤ 0 := by omega
  refine ⟨_, hreach.step (.verhogen (r := r) hrun hstack hkind), ?_, fun t' ht => ?_, rfl, rfl,
    fun b => ?_, hdead, hhalted⟩
  · simp [Pool.setStack]
  · simpa [Pool.setStack, Pool.verhogen, ht] using hothers t' ht
  · simpa [Pool.setStack, Pool.verhogen, hpass] using hqueue b

/-- The thread ends, and nothing has been left running. -/
theorem Solo.exit (h : S.Solo init t (⟨.call o k, held⟩ :: fs) v s) (hkind : S.kind o = .exit) :
    ∃ c, (S.system init).Reachable c ∧ (∀ t, c.stack t = []) ∧ c.value = v ∧
      (∀ a, c.queue a = []) := by
  obtain ⟨c, hreach, hstack, hothers, rfl, rfl, hqueue, hdead, hhalted⟩ := h
  have hrun : c.Running t := ⟨hhalted, hdead t, fun ⟨a, hmem⟩ => by simp [hqueue] at hmem⟩
  refine ⟨_, hreach.step (.exit hrun hstack hkind), fun t' => ?_, rfl, hqueue⟩
  by_cases ht : t' = t
  · simp [Pool.setStack, ht]
  · simpa [Pool.setStack, ht] using hothers t' ht

end Exec.Threads
