import Kaya.Exec.Trace

/-! Programs that run from beginning to end without interruption. -/

namespace Exec.Prog

variable {O σ : Type} {R : O → Type} {α β : Type}

/-- Where `act` says what an operation does to the state, the program leads from `s`
to `s'`: it returns, or it has come to an operation that ends it. -/
inductive Runs (act : (o : O) → σ → R o → σ → Prop) (ends : O → Prop) :
    Prog O R α → σ → Option α → σ → Prop where
  | ret {a : α} {s : σ} : Runs act ends (.ret a) s (some a) s
  | call {o : O} {k : R o → Prog O R α} {r : R o} {s s' t : σ} {x : Option α} :
      act o s r s' → Runs act ends (k r) s' x t → Runs act ends (.call o k) s x t
  | stop {o : O} {k : R o → Prog O R α} {s : σ} : ends o → Runs act ends (.call o k) s none s

variable {act : (o : O) → σ → R o → σ → Prop} {ends : O → Prop} {p : Prog O R α}
  {f : α → Prog O R β} {s s' t : σ} {a : α} {x : Option β} {o : O} {r : R o}

theorem Runs.bind (h : p.Runs act ends s (some a) s') (hf : (f a).Runs act ends s' x t) :
    (p >>= f).Runs act ends s x t := by
  generalize hy : some a = y at h
  induction h with
  | ret =>
    obtain rfl := Option.some.inj hy
    exact hf
  | call hact _ ih => exact .call hact (ih hf hy)
  | stop => exact absurd hy nofun

/-- A program runs through its first part, unless that ends it. -/
theorem Runs.of_bind (h : (p >>= f).Runs act ends s x t) :
    (∃ a s', p.Runs act ends s (some a) s' ∧ (f a).Runs act ends s' x t) ∨
      (x = none ∧ p.Runs act ends s none t) := by
  induction p generalizing s with
  | ret a => exact .inl ⟨a, s, .ret, h⟩
  | call o k ih =>
    cases h with
    | call hact hrest =>
      rcases ih _ hrest with ⟨a, s', hk, hf⟩ | ⟨hx, hk⟩
      · exact .inl ⟨a, s', .call hact hk, hf⟩
      · exact .inr ⟨hx, .call hact hk⟩
    | stop hends => exact .inr ⟨rfl, .stop hends⟩

theorem NoReturn.not_runs (h : p.NoReturn) : ¬ p.Runs act ends s (some a) t := by
  intro hruns
  generalize hy : some a = y at hruns
  induction hruns with
  | ret => exact h
  | call _ _ ih => exact ih (h _) hy
  | stop _ => exact absurd hy nofun

/-- Runs a program, where `f` computes what an operation answers and does and `b` says which
operations end it. -/
def exec (f : (o : O) → σ → Option (R o × σ)) (b : O → Bool) :
    Prog O R α → σ → Option (Option α × σ)
  | .ret a, s => some (some a, s)
  | .call o k, s =>
    if b o then some (none, s)
    else
      match f o s with
      | some (r, s') => (k r).exec f b s'
      | none => none

theorem Runs.of_exec {f : (o : O) → σ → Option (R o × σ)} {b : O → Bool} {y : Option α}
    (hact : ∀ o s r s', f o s = some (r, s') → act o s r s') (hends : ∀ o, b o = true → ends o)
    (h : p.exec f b s = some (y, t)) : p.Runs act ends s y t := by
  induction p generalizing s with
  | ret a =>
    cases h
    exact .ret
  | call o k ih =>
    simp only [exec] at h
    split at h
    · rename_i hb
      cases h
      exact .stop (hends o hb)
    · split at h
      · rename_i r s' hf
        exact .call (hact o s r s' hf) (ih r h)
      · exact absurd h nofun

/-- A program ends where its first part does. -/
theorem Runs.bind_none (h : p.Runs act ends s none t) : (p >>= f).Runs act ends s none t := by
  generalize hy : (none : Option α) = y at h
  induction h with
  | ret => exact absurd hy nofun
  | call hact _ ih => exact .call hact (ih hy)
  | stop hends => exact .stop hends

/-- A program that returns has run through both parts. -/
theorem runs_bind_some {b : β} : (p >>= f).Runs act ends s (some b) t ↔
    ∃ a s', p.Runs act ends s (some a) s' ∧ (f a).Runs act ends s' (some b) t := by
  constructor
  · intro h
    exact h.of_bind.resolve_right fun hnone => absurd hnone.1 nofun
  · rintro ⟨a, s', hp, hf⟩
    exact hp.bind hf

@[simp] theorem runs_ret {y : Option α} :
    (Prog.ret a : Prog O R α).Runs act ends s y t ↔ y = some a ∧ t = s := by
  constructor
  · intro h
    cases h
    exact ⟨rfl, rfl⟩
  · rintro ⟨rfl, rfl⟩
    exact .ret

theorem runs_perform : (perform o : Prog O R (R o)).Runs act ends s (some r) t ↔ act o s r t := by
  constructor
  · intro h
    cases h with
    | call hact hrest =>
      obtain ⟨hr, rfl⟩ := runs_ret.mp hrest
      obtain rfl := Option.some.inj hr
      exact hact
  · intro h
    exact .call h .ret

/-- An operation that does not end the program. -/
theorem runs_perform_bind {f : R o → Prog O R β} (ho : ¬ ends o) :
    (perform o >>= f).Runs act ends s x t ↔ ∃ r s', act o s r s' ∧ (f r).Runs act ends s' x t := by
  constructor
  · intro h
    cases h with
    | call hact hrest => exact ⟨_, _, hact, hrest⟩
    | stop hends => exact absurd hends ho
  · rintro ⟨r, s', hact, hrest⟩
    exact .call hact hrest

/-- A program comes to an end if none of its operations gets stuck. -/
theorem Always.exists_runs (hp : p.Always fun o => ∀ s, ends o ∨ ∃ r s', act o s r s') (s : σ) :
    ∃ x t, p.Runs act ends s x t := by
  induction p generalizing s with
  | ret a => exact ⟨_, _, .ret⟩
  | call o k ih =>
    rcases hp.1 s with hends | ⟨r, s', hstep⟩
    · exact ⟨none, s, .stop hends⟩
    · obtain ⟨x, t, hrest⟩ := ih r (hp.2 r) s'
      exact ⟨x, t, .call hstep hrest⟩

/-- What every operation of a program keeps, the program keeps. -/
theorem Runs.keeps {I : σ → Prop} {x : Option α} (h : p.Runs act ends s x t)
    (hp : p.Always fun o => ∀ s r s', act o s r s' → I s → I s') (hs : I s) : I t := by
  induction h with
  | ret => exact hs
  | call hact _ ih => exact ih (hp.2 _) (hp.1 _ _ _ hact hs)
  | stop _ => exact hs

theorem runs_when {c : Prop} [Decidable c] {p : Prog O R Unit} {y : Option Unit} :
    (Prog.when c p).Runs act ends s y t ↔
      (c ∧ p.Runs act ends s y t) ∨ (¬ c ∧ y = some () ∧ t = s) := by
  unfold Prog.when
  split <;> simp_all

/-- An operation that has no answer ends the program, or the program gets stuck. -/
theorem runs_unanswered {k : R o → Prog O R α} {y : Option α} (ho : R o → False) :
    (Prog.call o k).Runs act ends s y t ↔ ends o ∧ y = none ∧ t = s := by
  constructor
  · intro h
    cases h with
    | @call _ _ r => exact (ho r).elim
    | stop hends => exact ⟨hends, rfl, rfl⟩
  · rintro ⟨hends, rfl, rfl⟩
    exact .stop hends

/-- A test ends the program where its condition holds. -/
theorem runs_guard {c : Prop} [Decidable c] {k : R o → Prog O R Unit} {f : Unit → Prog O R β}
    (ho : R o → False) (hends : ends o) :
    (Prog.when c (.call o k) >>= f).Runs act ends s x t ↔
      if c then x = none ∧ t = s else (f ()).Runs act ends s x t := by
  unfold Prog.when
  split
  · rw [call_bind, runs_unanswered ho, and_iff_right hends]
  · rfl

/-- A loop keeps what its rounds keep. -/
theorem Runs.forM_keeps {I : σ → Prop} {l : List β} {f : β → Prog O R Unit} {y : Option Unit}
    (h : (l.forM f).Runs act ends s y t)
    (hround : ∀ i s y t, I s → (f i).Runs act ends s y t → I t) (hs : I s) : I t := by
  induction l generalizing s with
  | nil =>
    obtain ⟨-, rfl⟩ := runs_ret.mp h
    exact hs
  | cons i l ih =>
    rcases h.of_bind with ⟨_, s', hi, hrest⟩ | ⟨_, hi⟩
    · exact ih hrest (hround i _ _ _ hs hi)
    · exact hround i _ _ _ hs hi

end Exec.Prog
