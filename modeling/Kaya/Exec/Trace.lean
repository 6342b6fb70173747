import Kaya.Exec.Prog

/-! The operations that a program performs. -/

namespace Exec.Prog

variable {O : Type} {R : O → Type} {α β : Type}

/-- The program has performed these operations, the first one first, with these
answers, and `q` is left of it. -/
inductive Performs : Prog O R α → List ((o : O) × R o) → Prog O R α → Prop where
  | nil {p : Prog O R α} : Performs p [] p
  | call {o : O} {k : R o → Prog O R α} {r : R o} {l : List ((o : O) × R o)} {q : Prog O R α} :
      Performs (k r) l q → Performs (.call o k) (⟨o, r⟩ :: l) q

/-- All operations of the program have a property, whatever the answers are. -/
def Always (P : O → Prop) : Prog O R α → Prop
  | .ret _ => True
  | .call o k => P o ∧ ∀ r, (k r).Always P

/-- The program does not return to its caller. -/
def NoReturn : Prog O R α → Prop
  | .ret _ => False
  | .call _ k => ∀ r, (k r).NoReturn

/-- The program can perform an operation. -/
def Reaches (p : Prog O R α) (o : O) : Prop := ∃ l q r, p.Performs l q ∧ ⟨o, r⟩ ∈ l

variable {P : O → Prop} {p p' q : Prog O R α} {l l' : List ((o : O) × R o)} {f : α → Prog O R β}
  {o o' : O} {k : R o → Prog O R α} {r : R o}

@[simp] theorem performs_call_cons :
    (Prog.call o k).Performs (⟨o, r⟩ :: l) q ↔ (k r).Performs l q := by
  constructor
  · intro h
    cases h with
    | call h => exact h
  · exact .call

/-- What a program performs begins with its first operation. -/
theorem Performs.first (h : (Prog.call o k).Performs l q) :
    l = [] ∨ ∃ r l', l = ⟨o, r⟩ :: l' ∧ (k r).Performs l' q := by
  cases h with
  | nil => exact .inl rfl
  | @call _ _ r l' _ h => exact .inr ⟨r, l', rfl, h⟩

/-- An operation other than the first one is performed later. -/
theorem Performs.later {x : (o : O) × R o} (h : (Prog.call o k).Performs l q) (hx : x ∈ l)
    (hne : x.1 ≠ o) : ∃ r l', l = ⟨o, r⟩ :: l' ∧ (k r).Performs l' q ∧ x ∈ l' := by
  rcases h.first with rfl | ⟨r, l', rfl, hrest⟩
  · exact absurd hx List.not_mem_nil
  · refine ⟨r, l', rfl, hrest, (List.mem_cons.mp hx).resolve_left fun heq => ?_⟩
    exact hne (congrArg Sigma.fst heq)

/-- A program performs what its first part performs. -/
theorem Performs.bind (h : p.Performs l q) : (p >>= f).Performs l (q >>= f) := by
  induction h with
  | nil => exact .nil
  | call _ ih => exact .call ih

theorem Always.of_performs (h : p.Always P) (hperf : p.Performs l q) : ∀ x ∈ l, P x.1 := by
  induction hperf with
  | nil => exact fun x hx => absurd hx List.not_mem_nil
  | call _ ih =>
    intro x hx
    rcases List.mem_cons.mp hx with rfl | hx
    · exact h.1
    · exact ih (h.2 _) x hx

/-- A program whose operations all keep the logical state. -/
theorem Always.meets {Γ : Type} {C : Contract O R Γ} {g : Γ} (h : p.Always P)
    (hP : ∀ o, P o → C.pre g o ∧ ∀ r g', C.post g o r g' → g' = g) :
    p.Meets C g fun g' _ => g' = g := by
  induction p with
  | ret a => rfl
  | call o k ih =>
    refine ⟨(hP o h.1).1, fun r g' hpost => ?_⟩
    obtain rfl := (hP o h.1).2 r g' hpost
    exact ih r (h.2 r)

theorem reaches_here (r : R o) : (Prog.call o k).Reaches o :=
  ⟨[⟨o, r⟩], k r, r, .call .nil, List.mem_singleton_self _⟩

theorem Reaches.later (r : R o) (h : (k r).Reaches o') : (Prog.call o k).Reaches o' := by
  obtain ⟨l, q, r', hperf, hmem⟩ := h
  exact ⟨⟨o, r⟩ :: l, q, r', .call hperf, List.mem_cons_of_mem _ hmem⟩

theorem Reaches.bind (h : p.Reaches o) : (p >>= f).Reaches o := by
  obtain ⟨l, q, r, hperf, hmem⟩ := h
  exact ⟨l, q >>= f, r, hperf.bind, hmem⟩

theorem always_perform (h : P o) : (perform o : Prog O R (R o)).Always P := ⟨h, fun _ => trivial⟩

theorem Always.bind (h : p.Always P) (hf : ∀ a, (f a).Always P) : (p >>= f).Always P := by
  induction p with
  | ret a => exact hf a
  | call o k ih => exact ⟨h.1, fun r => ih r (h.2 r)⟩

theorem NoReturn.bind {f : α → Prog O R β} (hf : ∀ a, (f a).NoReturn) : (p >>= f).NoReturn := by
  induction p with
  | ret a => exact hf a
  | call o k ih => exact fun r => ih r

/-- What would come after a program that does not return is not performed. -/
theorem Always.bind_noReturn {f : α → Prog O R β} (h : p.Always P) (hp : p.NoReturn) :
    (p >>= f).Always P := by
  induction p with
  | ret a => exact hp.elim
  | call o k ih => exact ⟨h.1, fun r => ih r (h.2 r) (hp r)⟩

theorem always_when {c : Prop} [Decidable c] {p : Prog O R Unit} (h : c → p.Always P) :
    (Prog.when c p).Always P := by
  unfold Prog.when
  split
  · exact h ‹c›
  · trivial

theorem always_ite {c : Prop} [Decidable c] (hp : c → p.Always P) (hq : ¬ c → q.Always P) :
    (if c then p else q).Always P := by
  split
  · exact hp ‹c›
  · exact hq ‹¬ c›

theorem always_forM {l : List β} {f : β → Prog O R Unit} (h : ∀ i, (f i).Always P) :
    (l.forM f).Always P := by
  induction l with
  | nil => trivial
  | cons i l ih => exact (h i).bind fun _ => ih

end Exec.Prog
