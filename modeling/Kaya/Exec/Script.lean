import Kaya.Exec.System

/-! Runs that are computed: a script says what a cue does in a state, and when it fits. -/

namespace Exec

/-- Cues `κ` for a system with states `σ` and events `ε`. -/
structure Script (σ ε κ : Type) where
  event : σ → κ → ε
  next : σ → κ → σ
  fits : σ → κ → Bool

namespace Script

variable {σ ε κ : Type} (Q : Script σ ε κ)

/-- The state that the cues lead to. -/
def play (s : σ) (l : List κ) : σ := l.foldl Q.next s

/-- Every cue fits the state it comes in. -/
def plays : σ → List κ → Bool
  | _, [] => true
  | s, k :: l => Q.fits s k && plays (Q.next s k) l

/-- The steps, each with the state it leads to. -/
def events : σ → List κ → List (ε × σ)
  | _, [] => []
  | s, k :: l => (Q.event s k, Q.next s k) :: events (Q.next s k) l

/-- The steps after those of `past`, each with the state it starts in and the last one first. -/
def history : σ → List κ → List (σ × ε) → List (σ × ε)
  | _, [], past => past
  | s, k :: l, past => history (Q.next s k) l ((s, Q.event s k) :: past)

/-- The script with a further condition on the steps. -/
def restrict (P : σ → ε → σ → Prop) [∀ s e s', Decidable (P s e s')] : Script σ ε κ :=
  { Q with fits := fun s k => Q.fits s k && decide (P s (Q.event s k) (Q.next s k)) }

/-- The script of a function that computes the state after a cue, if the cue fits. -/
def ofNext (event : σ → κ → ε) (next : σ → κ → Option σ) : Script σ ε κ where
  event := event
  next s k := (next s k).getD s
  fits s k := (next s k).isSome

/-- A cue that fits makes a step of the system. -/
def Follows (S : System σ ε) : Prop :=
  ∀ s k, Q.fits s k = true → S.step s (Q.event s k) (Q.next s k)

variable {Q} {S : System σ ε} {s : σ} {l : List κ}

theorem Follows.restrict {P : σ → ε → σ → Prop} [∀ s e s', Decidable (P s e s')]
    (hQ : Q.Follows S) : (Q.restrict P).Follows (S.restrict P) := by
  intro s k h
  obtain ⟨hfits, hP⟩ := Bool.and_eq_true_iff.mp h
  exact ⟨hQ s k hfits, of_decide_eq_true hP⟩

theorem follows_ofNext {event : σ → κ → ε} {next : σ → κ → Option σ}
    (h : ∀ s k s', next s k = some s' → S.step s (event s k) s') :
    (ofNext event next).Follows S := by
  intro s k hfits
  obtain ⟨s', hs'⟩ := Option.isSome_iff_exists.mp hfits
  have hnext : (ofNext event next).next s k = s' := congrArg (Option.getD · s) hs'
  rw [hnext]
  exact h s k s' hs'

/-- A condition that can be decided stands for one that it implies. -/
theorem Follows.weaken {P P' : σ → ε → σ → Prop} (hQ : Q.Follows (S.restrict P'))
    (hP : ∀ s e s', P' s e s' → P s e s') : Q.Follows (S.restrict P) := by
  intro s k h
  obtain ⟨hstep, hP'⟩ := hQ s k h
  exact ⟨hstep, hP _ _ _ hP'⟩

theorem Follows.path (hQ : Q.Follows S) (h : Q.plays s l = true) :
    S.Path s (Q.events s l) (Q.play s l) := by
  induction l generalizing s with
  | nil => exact .nil
  | cons k l ih =>
    obtain ⟨hfits, hrest⟩ := Bool.and_eq_true_iff.mp h
    exact .cons (hQ s k hfits) (ih hrest)

theorem Follows.trace {past : List (σ × ε)} (hQ : Q.Follows S) (hpast : S.Trace past s)
    (h : Q.plays s l = true) : S.Trace (Q.history s l past) (Q.play s l) := by
  induction l generalizing s past with
  | nil => exact hpast
  | cons k l ih =>
    obtain ⟨hfits, hrest⟩ := Bool.and_eq_true_iff.mp h
    exact ih (hpast.step (hQ s k hfits)) hrest

/-- What is played from a reachable state is reachable. -/
theorem Follows.reachable (hQ : Q.Follows S) (hs : S.Reachable s) (h : Q.plays s l = true) :
    S.Reachable (Q.play s l) :=
  hs.path (hQ.path h)

end Script

end Exec
