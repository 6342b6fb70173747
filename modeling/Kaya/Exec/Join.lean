import Kaya.Exec.Threads
import Mathlib.Data.Finset.Card

/-! A thread that waits for others to end, with one P for each V with which they end. -/

namespace Exec

variable {T A E O σ : Type} {R : O → Type}

namespace Threads

/-- The activation is about to end its thread. -/
def AtExit (S : Threads T A E O R σ) (f : Frame A O R) : Prop :=
  ∃ o k, f.prog = .call o k ∧ S.kind o = .exit

/-- The thread has ended or is about to. -/
def Finished (S : Threads T A E O R σ) (c : Pool T A O R σ) (t : T) : Prop :=
  c.dead t = true ∨ ∃ f fs, c.stack t = f :: fs ∧ S.AtExit f

/-- The code of a thread that is waited for: it ends exactly after a V on `a`, where the
logical state says whether that V has been. All it does is in `ok`. -/
def joinContract (S : Threads T A E O R σ) (a : A) (ok : O → Prop) : Prog.Contract O R Bool where
  pre g o := S.kind o ≠ .passeren a ∧ ok o ∧ (S.kind o = .exit ↔ g = true)
  post g o _ g' := g' = true ↔ S.kind o = .verhogen a ∨ g = true

/-- The rest of an activation that returns only without that V. -/
def Joins (S : Threads T A E O R σ) (a : A) (ok : O → Prop) (g : Bool) (p : Prog O R Unit) : Prop :=
  p.Meets (S.joinContract a ok) g fun g' _ => g' = false

/-- Only the innermost activation has made the V. -/
def StackJoins (S : Threads T A E O R σ) (a : A) (ok : O → Prop) : List (Frame A O R) → Prop
  | [] => True
  | f :: fs => (∃ g, S.Joins a ok g f.prog) ∧ ∀ f ∈ fs, S.Joins a ok false f.prog

/-- `loop n` makes `n` P's on `a` and then ends its thread. -/
structure Awaits (S : Threads T A E O R σ) (a : A) (loop : Nat → Prog O R Unit) : Prop where
  zero : ∃ o k, loop 0 = .call o k ∧ S.kind o = .exit
  succ : ∀ n, ∃ o k, loop (n + 1) = .call o k ∧ S.kind o = .passeren a ∧
    (∀ r, k r = loop n) ∧ Nonempty (R o)

/-- `t₀` has `n` P's before it, and the workers `gone` have made their V's. A thread does
what it `may`. -/
structure Joining (S : Threads T A E O R σ) (a : A) (t₀ : T) (loop : Nat → Prog O R Unit)
    (may : T → O → Prop) (workers gone : Finset T) (n : Nat) (c : Pool T A O R σ) : Prop where
  joiner : c.dead t₀ = false → c.stack t₀ = [⟨loop n, []⟩]
  ended : c.dead t₀ = true → c.stack t₀ = [] ∧ n = 0 ∧ 0 ≤ c.value a
  finished : ∀ t, t ∈ gone ↔ t ∈ workers ∧ S.Finished c t
  value : c.value a + workers.card = gone.card + n
  low : -1 ≤ c.value a
  queue : c.queue a = if c.value a < 0 then [t₀] else []
  elsewhere : ∀ b, b ≠ a → t₀ ∉ c.queue b
  frames : ∀ t, t ≠ t₀ → S.StackJoins a (may t) (c.stack t)

variable {S : Threads T A E O R σ} {a b : A} {t t₀ : T} {loop : Nat → Prog O R Unit}
  {workers gone : Finset T} {n : Nat} {c c' : Pool T A O R σ} {ok : O → Prop}
  {may : T → O → Prop} {g : Bool}
  {f : Frame A O R} {fs : List (Frame A O R)} {o : O} {k : R o → Prog O R Unit} {held : List A}
  {p : Prog O R Unit}

/-- Behind its V an activation is about to end its thread, and before it is not. -/
theorem Joins.atExit_iff (h : S.Joins a ok g p) : S.AtExit ⟨p, held⟩ ↔ g = true := by
  cases p with
  | ret u =>
    have hnone : g = false := h
    refine ⟨fun ⟨o, k, heq, _⟩ => ?_, fun hg => ?_⟩
    · cases heq
    · rw [hnone] at hg
      exact absurd hg Bool.false_ne_true
  | call o k =>
    have hexit : S.kind o = .exit ↔ g = true := h.1.2.2
    refine ⟨fun ⟨o', k', heq, hkind⟩ => ?_, fun hg => ⟨o, k, rfl, hexit.mpr hg⟩⟩
    cases heq
    exact hexit.mp hkind

/-- An operation that does not end the thread: what is left has made the V if this was it. -/
theorem Joins.next (h : S.Joins a ok g (.call o k)) (hkind : S.kind o ≠ .exit) (r : R o) :
    g = false ∧ ∃ g', (g' = true ↔ S.kind o = .verhogen a) ∧ S.Joins a ok g' (k r) := by
  have hexit : S.kind o = .exit ↔ g = true := h.1.2.2
  have hg : g = false := by
    by_contra hg
    exact hkind (hexit.mpr (by simpa using hg))
  subst hg
  refine ⟨rfl, ?_⟩
  by_cases hV : S.kind o = .verhogen a
  · exact ⟨true, by simp [hV], h.2 r true (by simp [joinContract, hV])⟩
  · exact ⟨false, by simp [hV], h.2 r false (by simp [joinContract, hV])⟩

theorem finished_cons (hstack : c.stack t = f :: fs) (hdead : c.dead t = false) :
    S.Finished c t ↔ S.AtExit f := by
  refine ⟨fun hfin => ?_, fun hexit => .inr ⟨f, fs, hstack, hexit⟩⟩
  obtain hdead' | ⟨f', fs', hstack', hexit⟩ := hfin
  · rw [hdead] at hdead'
    exact absurd hdead' Bool.false_ne_true
  · rw [hstack] at hstack'
    cases hstack'
    exact hexit

theorem finished_nil (hdead : c.dead t = false) (hstack : c.stack t = []) : ¬ S.Finished c t := by
  rintro (hdead' | ⟨f, fs, hstack', -⟩)
  · rw [hdead] at hdead'
    exact absurd hdead' Bool.false_ne_true
  · rw [hstack] at hstack'
    cases hstack'

/-- Activations that have all been interrupted: none of them has made its V. -/
theorem StackJoins.cons (h : S.StackJoins a ok fs) (hfs : ∀ f fs', fs = f :: fs' → ¬ S.AtExit f)
    (hg : S.Joins a ok g p) : S.StackJoins a ok (⟨p, held⟩ :: fs) := by
  refine ⟨⟨g, hg⟩, ?_⟩
  cases fs with
  | nil => exact fun f hf => absurd hf List.not_mem_nil
  | cons f fs =>
    obtain ⟨⟨g', hg'⟩, hrest⟩ := h
    have hnone : g' = false := by
      by_contra htrue
      exact hfs f fs rfl (hg'.atExit_iff.mpr (by simpa using htrue))
    intro f' hf'
    obtain rfl | hf' := List.mem_cons.mp hf'
    · exact hnone ▸ hg'
    · exact hrest f' hf'

theorem StackJoins.tail (h : S.StackJoins a ok (f :: fs)) : S.StackJoins a ok fs := by
  cases fs with
  | nil => trivial
  | cons f' fs =>
    exact ⟨⟨false, h.2 f' List.mem_cons_self⟩, fun f hf => h.2 f (List.mem_cons_of_mem _ hf)⟩

/-- What is suspended is not about to end its thread. -/
theorem StackJoins.suspended (h : S.StackJoins a ok (f :: fs)) {f' : Frame A O R}
    {fs' : List (Frame A O R)} (heq : fs = f' :: fs') : ¬ S.AtExit f' := by
  subst heq
  intro hexit
  exact absurd ((h.2 f' List.mem_cons_self).atExit_iff.mp hexit) Bool.false_ne_true

section

variable [DecidableEq T]

/-- A worker or another thread does something. -/
theorem Joining.move {gone' : Finset T} (h : S.Joining a t₀ loop may workers gone n c) (ht : t ≠ t₀)
    (hstack : ∀ u, u ≠ t → c'.stack u = c.stack u) (hdead : ∀ u, u ≠ t → c'.dead u = c.dead u)
    (hjoins : S.StackJoins a (may t) (c'.stack t))
    (hgone : ∀ u, u ∈ gone' ↔ u ∈ gone ∨ u = t ∧ u ∈ workers ∧ S.Finished c' t)
    (hfinished : S.Finished c t → S.Finished c' t)
    (hvalue : c'.value a + gone.card = c.value a + gone'.card)
    (hqueue : c'.queue a = if c'.value a < 0 then [t₀] else [])
    (helsewhere : ∀ b, b ≠ a → t₀ ∉ c'.queue b) (hle : c.value a ≤ c'.value a) :
    S.Joining a t₀ loop may workers gone' n c' := by
  have hother : ∀ u, u ≠ t → (S.Finished c' u ↔ S.Finished c u) := by
    intro u hu
    unfold Finished
    rw [hstack u hu, hdead u hu]
  refine ⟨?_, ?_, fun u => ?_, ?_, h.low.trans hle, hqueue, helsewhere, fun u hu => ?_⟩
  · rw [hstack t₀ ht.symm, hdead t₀ ht.symm]
    exact h.joiner
  · rw [hstack t₀ ht.symm, hdead t₀ ht.symm]
    intro hended
    obtain ⟨hempty, hn, hpos⟩ := h.ended hended
    exact ⟨hempty, hn, hpos.trans hle⟩
  · rw [hgone u, h.finished u]
    by_cases hu : u = t
    · subst hu
      constructor
      · rintro (⟨hw, hfin⟩ | ⟨-, hw, hfin⟩)
        · exact ⟨hw, hfinished hfin⟩
        · exact ⟨hw, hfin⟩
      · exact fun ⟨hw, hfin⟩ => .inr ⟨rfl, hw, hfin⟩
    · simp [hother u hu, hu]
  · have := h.value
    omega
  · by_cases hut : u = t
    · rw [hut]
      exact hjoins
    · rw [hstack u hut]
      exact h.frames u hu

/-- A step of such a thread that leaves `a` alone, and that does not bring it to its end. -/
theorem Joining.frame (h : S.Joining a t₀ loop may workers gone n c) (ht : t ≠ t₀)
    (hstack : ∀ u, u ≠ t → c'.stack u = c.stack u) (hdead : ∀ u, u ≠ t → c'.dead u = c.dead u)
    (hjoins : S.StackJoins a (may t) (c'.stack t)) (hfinished : S.Finished c' t ↔ S.Finished c t)
    (hvalue : c'.value a = c.value a) (hqueue : c'.queue a = c.queue a)
    (helsewhere : ∀ b, b ≠ a → t₀ ∈ c'.queue b → t₀ ∈ c.queue b) :
    S.Joining a t₀ loop may workers gone n c' := by
  refine h.move ht hstack hdead hjoins (fun u => ⟨.inl, ?_⟩) hfinished.mpr (by omega) ?_
    (fun b hb hmem => h.elsewhere b hb (helsewhere b hb hmem)) hvalue.ge
  · rintro (hu | ⟨rfl, hw, hfin⟩)
    · exact hu
    · exact (h.finished u).mpr ⟨hw, hfinished.mp hfin⟩
  · rw [hvalue, hqueue]
    exact h.queue

end

variable [DecidableEq T] [DecidableEq A]

/-- What a step has to keep to: `t₀` enters nothing, a thread about to end enters nothing,
what is entered makes its V only at its end, and other operations leave `a` alone. -/
structure JoinKept (S : Threads T A E O R σ) (a : A) (t₀ : T) (may : T → O → Prop)
    (c : Pool T A O R σ) (e : Happening T E O) (c' : Pool T A O R σ) : Prop where
  enters : ∀ t entry, e = .enter t entry → t ≠ t₀ ∧ (∀ f fs, c.stack t = f :: fs → ¬ S.AtExit f) ∧
    S.Joins a (may t) false (S.program t entry)
  others : ∀ t o, e = .perform t o → S.kind o = .other → c'.value a = c.value a

omit [DecidableEq A] in
/-- A worker or another thread performs an operation that does not end it. -/
theorem Joining.perform (h : S.Joining a t₀ loop may workers gone n c) (hrun : c.Running t)
    (ht : t ≠ t₀)
    (hstack : c.stack t = ⟨.call o k, held⟩ :: fs) (hkind : S.kind o ≠ .exit)
    (hV : S.kind o ≠ .verhogen a) (r : R o) {l : List A} (hstack' : c'.stack t = ⟨k r, l⟩ :: fs)
    (hstacks : ∀ u, u ≠ t → c'.stack u = c.stack u) (hdead : c'.dead = c.dead)
    (hvalue : c'.value a = c.value a) (hqueue : c'.queue a = c.queue a)
    (helsewhere : ∀ b, b ≠ a → t₀ ∈ c'.queue b → t₀ ∈ c.queue b) :
    S.Joining a t₀ loop may workers gone n c' := by
  have hjoins := h.frames t ht
  rw [hstack] at hjoins
  obtain ⟨⟨g, hg⟩, hrest⟩ := hjoins
  obtain ⟨rfl, g', hg', hnext⟩ := hg.next hkind r
  have hnone : g' = false := by
    by_contra htrue
    exact hV (hg'.mp (by simpa using htrue))
  subst hnone
  refine h.frame ht hstacks (fun u _ => congrFun hdead u) ?_ ?_ hvalue hqueue helsewhere
  · rw [hstack']
    exact ⟨⟨false, hnext⟩, hrest⟩
  · rw [finished_cons hstack' ((congrFun hdead t).trans hrun.dead), finished_cons hstack hrun.dead,
      hnext.atExit_iff, hg.atExit_iff]

omit [DecidableEq T] [DecidableEq A] in
/-- What an operation of `t₀` is. -/
theorem Joining.joiner_call (h : S.Joining a t₀ loop may workers gone n c)
    (hstack : c.stack t₀ = ⟨.call o k, held⟩ :: fs) : loop n = .call o k ∧ held = [] ∧ fs = [] := by
  cases hdead : c.dead t₀ with
  | true =>
    rw [(h.ended hdead).1] at hstack
    cases hstack
  | false =>
    rw [h.joiner hdead] at hstack
    obtain ⟨hframe, rfl⟩ := List.cons.inj hstack
    obtain ⟨hprog, rfl⟩ := Frame.mk.inj hframe
    exact ⟨hprog, rfl, rfl⟩

omit [DecidableEq T] [DecidableEq A] in
/-- While `t₀` does not wait, `a` is not negative. -/
theorem Joining.value_nonneg (h : S.Joining a t₀ loop may workers gone n c) (hrun : ¬ c.Waits t₀) :
    0 ≤ c.value a ∧ c.queue a = [] := by
  have hqueue := h.queue
  split at hqueue
  · exact absurd ⟨a, hqueue ▸ List.mem_singleton_self _⟩ hrun
  · exact ⟨not_lt.mp ‹_›, hqueue⟩

/-- `t₀` makes one of its P's. -/
theorem Joining.passeren (h : S.Joining a t₀ loop may workers gone (n + 1) c) (hne : t₀ ∉ workers)
    (hmutex : S.mutex a = false) (hrun : c.Running t₀) :
    S.Joining a t₀ loop may workers gone n ((c.passeren t₀ a).setStack t₀ [⟨loop n, S.take a []⟩]) := by
  obtain ⟨hpos, hempty⟩ := h.value_nonneg hrun.ready
  have hfinished : ∀ u, u ≠ t₀ → (S.Finished ((c.passeren t₀ a).setStack t₀ [⟨loop n, S.take a []⟩]) u ↔
      S.Finished c u) := by
    intro u hu
    simp [Finished, Pool.setStack, Pool.passeren, hu]
  refine ⟨fun _ => ?_, fun hdead => ?_, fun u => ?_, ?_, ?_, ?_, fun b hb => ?_, fun u hu => ?_⟩
  · simp [Pool.setStack, take, hmutex]
  · exact absurd (hrun.dead.symm.trans hdead) Bool.false_ne_true
  · rw [h.finished u]
    refine and_congr_right fun hw => (hfinished u ?_).symm
    rintro rfl
    exact hne hw
  · have hvalue := h.value
    simp only [Pool.setStack, Pool.passeren, Function.update_self]
    omega
  · simp only [Pool.setStack, Pool.passeren, Function.update_self]
    omega
  · simp only [Pool.setStack, Pool.passeren, Function.update_self, hempty, List.nil_append]
    split
    · simp
    · exact hempty
  · have hmem := h.elsewhere b hb
    simp only [Pool.setStack, Pool.passeren]
    split
    · simpa [hb] using hmem
    · exact hmem
  · simpa [Pool.setStack, Pool.passeren, hu] using h.frames u hu

/-- A worker makes its V. -/
theorem Joining.verhogen (h : S.Joining a t₀ loop may workers gone n c) (hrun : c.Running t)
    (ht : t ≠ t₀)
    (hstack : c.stack t = ⟨.call o k, held⟩ :: fs) (hkind : S.kind o = .verhogen a) (r : R o)
    (hmay : ∀ t o, may t o → S.kind o = .verhogen a → t ∈ workers) :
    S.Joining a t₀ loop may workers (insert t gone) n
      ((c.verhogen a).setStack t (⟨k r, S.give a held⟩ :: fs)) := by
  have hjoins := h.frames t ht
  rw [hstack] at hjoins
  obtain ⟨⟨g, hg⟩, hrest⟩ := hjoins
  have hworker : t ∈ workers := hmay t o hg.1.2.1 hkind
  obtain ⟨rfl, g', hg', hnext⟩ := hg.next (by simp [hkind]) r
  obtain rfl := hg'.mpr hkind
  have hstack' : ((c.verhogen a).setStack t (⟨k r, S.give a held⟩ :: fs)).stack t =
      ⟨k r, S.give a held⟩ :: fs := by simp [Pool.setStack]
  have hfin : S.Finished ((c.verhogen a).setStack t (⟨k r, S.give a held⟩ :: fs)) t :=
    (finished_cons hstack' hrun.dead).mpr (hnext.atExit_iff.mpr rfl)
  have hnew : t ∉ gone := by
    rw [h.finished, finished_cons hstack hrun.dead, hg.atExit_iff]
    simp
  have hbefore : ∀ (v : Int) (l : List T), l = (if v < 0 then [t₀] else []) → -1 ≤ v →
      (if v + 1 ≤ 0 then l.tail else l) = if v + 1 < 0 then [t₀] else [] := by
    rintro v l rfl hv
    split_ifs <;> first | rfl | omega
  refine h.move ht (fun u hu => ?_) (fun u hu => rfl) ?_ (fun u => ?_) (fun _ => hfin) ?_ ?_
    (fun b hb hmem => ?_) ?_
  · simp [Pool.setStack, Pool.verhogen, hu]
  · rw [hstack']
    exact ⟨⟨true, hnext⟩, hrest⟩
  · rw [Finset.mem_insert]
    constructor
    · rintro (rfl | hu)
      · exact .inr ⟨rfl, hworker, hfin⟩
      · exact .inl hu
    · rintro (hu | ⟨rfl, -, -⟩)
      · exact .inr hu
      · exact .inl rfl
  · simp only [Pool.setStack, Pool.verhogen, Function.update_self, Finset.card_insert_of_notMem hnew]
    push_cast
    omega
  · have := hbefore (c.value a) (c.queue a) h.queue h.low
    simp only [Pool.setStack, Pool.verhogen, Function.update_self]
    rw [← this]
    split <;> simp
  · have hold := h.elsewhere b hb
    simp only [Pool.setStack, Pool.verhogen] at hmem
    split at hmem
    · rw [Function.update_of_ne hb] at hmem
      exact hold hmem
    · exact hold hmem
  · simp only [Pool.setStack, Pool.verhogen, Function.update_self]
    omega

omit [DecidableEq A] in
/-- A thread enters code that makes its V only at its end. -/
theorem Joining.enter (h : S.Joining a t₀ loop may workers gone n c) (hrun : c.Running t) (ht : t ≠ t₀)
    (hnone : ∀ f fs, c.stack t = f :: fs → ¬ S.AtExit f) (hjoins : S.Joins a (may t) false p) :
    S.Joining a t₀ loop may workers gone n (c.setStack t (⟨p, []⟩ :: c.stack t)) := by
  have hstack' : (c.setStack t (⟨p, []⟩ :: c.stack t)).stack t = ⟨p, []⟩ :: c.stack t := by
    simp [Pool.setStack]
  have hbefore : ¬ S.Finished c t := by
    cases hstack : c.stack t with
    | nil => exact finished_nil hrun.dead hstack
    | cons f fs => exact fun hfin => hnone f fs hstack ((finished_cons hstack hrun.dead).mp hfin)
  refine h.frame ht (fun u hu => ?_) (fun u _ => rfl) ?_ (iff_of_false (fun hfin => ?_) hbefore) rfl rfl
    fun b _ hmem => hmem
  · simp [Pool.setStack, hu]
  · rw [hstack']
    exact (h.frames t ht).cons hnone hjoins
  · exact Bool.false_ne_true (hjoins.atExit_iff.mp ((finished_cons hstack' hrun.dead).mp hfin))

omit [DecidableEq A] in
/-- A thread returns from an activation. -/
theorem Joining.leave (h : S.Joining a t₀ loop may workers gone n c) (hrun : c.Running t) (ht : t ≠ t₀)
    (hstack : c.stack t = ⟨.ret (), held⟩ :: fs) :
    S.Joining a t₀ loop may workers gone n (c.setStack t fs) := by
  have hjoins := h.frames t ht
  rw [hstack] at hjoins
  obtain ⟨g, hnone⟩ := hjoins.1
  have hnone : g = false := hnone
  have hstack' : (c.setStack t fs).stack t = fs := by simp [Pool.setStack]
  have hbefore : ¬ S.Finished c t := by
    rw [finished_cons hstack hrun.dead]
    rintro ⟨o, k, heq, -⟩
    cases heq
  have hafter : ¬ S.Finished (c.setStack t fs) t := by
    cases hfs : fs with
    | nil => exact finished_nil hrun.dead (by simp [Pool.setStack])
    | cons f fs' =>
      subst hfs
      rw [finished_cons hstack' hrun.dead]
      exact hjoins.suspended rfl
  refine h.frame ht (fun u hu => ?_) (fun u _ => rfl) ?_ (iff_of_false hafter hbefore) rfl rfl
    fun b _ hmem => hmem
  · simp [Pool.setStack, hu]
  · rw [hstack']
    exact hjoins.tail

omit [DecidableEq A] in
/-- A thread ends that has made its V. -/
theorem Joining.exit (h : S.Joining a t₀ loop may workers gone n c) (ht : t ≠ t₀)
    (hstack : c.stack t = ⟨.call o k, held⟩ :: fs) (hkind : S.kind o = .exit) :
    S.Joining a t₀ loop may workers gone n
      { c.setStack t [] with dead := Function.update c.dead t true } := by
  have hbefore : S.Finished c t := .inr ⟨_, fs, hstack, o, k, rfl, hkind⟩
  refine h.frame ht (fun u hu => ?_) (fun u hu => ?_) ?_ (iff_of_true (.inl ?_) hbefore) rfl rfl
    fun b _ hmem => hmem
  · simp [Pool.setStack, hu]
  · simp [hu]
  · simp [Pool.setStack, StackJoins]
  · simp

omit [DecidableEq A] in
/-- `t₀` ends after its last P. -/
theorem Joining.last (h : S.Joining a t₀ loop may workers gone 0 c) (hne : t₀ ∉ workers)
    (hrun : c.Running t₀) :
    S.Joining a t₀ loop may workers gone 0
      { c.setStack t₀ [] with dead := Function.update c.dead t₀ true } := by
  obtain ⟨hpos, -⟩ := h.value_nonneg hrun.ready
  refine ⟨fun hdead => ?_, fun _ => ⟨?_, rfl, hpos⟩, fun u => ?_, h.value, h.low, h.queue, h.elsewhere,
    fun u hu => ?_⟩
  · simp at hdead
  · simp [Pool.setStack]
  · rw [h.finished u]
    refine and_congr_right fun hw => ?_
    have hu : u ≠ t₀ := by
      rintro rfl
      exact hne hw
    simp [Finished, Pool.setStack, hu]
  · simpa [Pool.setStack, hu] using h.frames u hu

/-- One step of a thread other than `t₀`. -/
theorem Joining.step_other {e : Happening T E O} (h : S.Joining a t₀ loop may workers gone n c)
    (hstep : S.Step c e c') (hkept : S.JoinKept a t₀ may c e c')
    (hmay : ∀ t o, may t o → S.kind o = .verhogen a → t ∈ workers)
    (ht : ∀ t o, e = .perform t o → t ≠ t₀) (hleave : e ≠ .leave t₀) :
    ∃ gone', S.Joining a t₀ loop may workers gone' n c' := by
  cases hstep with
  | @enter t entry s' hrun _ =>
    obtain ⟨ht, hnone, hjoins⟩ := hkept.enters t entry rfl
    have hbegun := h.enter hrun ht hnone hjoins
    exact ⟨gone, hbegun.joiner, hbegun.ended, hbegun.finished, hbegun.value, hbegun.low, hbegun.queue,
      hbegun.elsewhere, hbegun.frames⟩
  | @leave t held fs hrun hstack =>
    refine ⟨gone, h.leave hrun ?_ hstack⟩
    rintro rfl
    exact hleave rfl
  | @passeren t o k held fs b r hrun hstack hkind =>
    have ht := ht t o rfl
    have hjoins := h.frames t ht
    rw [hstack] at hjoins
    obtain ⟨⟨g, hg⟩, -⟩ := hjoins
    have hb : b ≠ a := by
      rintro rfl
      exact hg.1.1 hkind
    refine ⟨gone, h.perform hrun ht hstack (by simp [hkind]) (by simp [hkind]) r (l := S.take b held) ?_
      (fun u hu => ?_) rfl ?_ ?_ fun b' _ hmem => ?_⟩
    · simp [Pool.setStack]
    · simp [Pool.setStack, Pool.passeren, hu]
    · simp [Pool.setStack, Pool.passeren, hb.symm]
    · simp only [Pool.setStack, Pool.passeren]
      split
      · simp [hb.symm]
      · rfl
    · simp only [Pool.setStack, Pool.passeren] at hmem
      split at hmem
      · by_cases hb' : b' = b
        · subst hb'
          simpa [ht.symm] using hmem
        · simpa [hb'] using hmem
      · exact hmem
  | @verhogen t o k held fs b r hrun hstack hkind =>
    have ht := ht t o rfl
    by_cases hb : b = a
    · subst hb
      exact ⟨_, h.verhogen hrun ht hstack hkind r hmay⟩
    · refine ⟨gone, h.perform hrun ht hstack (by simp [hkind]) (by simp [hkind, hb]) r
        (l := S.give b held) ?_ (fun u hu => ?_) rfl ?_ ?_ fun b' _ hmem => ?_⟩
      · simp [Pool.setStack]
      · simp [Pool.setStack, Pool.verhogen, hu]
      · simp [Pool.setStack, Pool.verhogen, Ne.symm hb]
      · simp only [Pool.setStack, Pool.verhogen]
        split
        · simp [Ne.symm hb]
        · rfl
      · simp only [Pool.setStack, Pool.verhogen] at hmem
        split at hmem
        · by_cases hb' : b' = b
          · subst hb'
            exact List.mem_of_mem_tail (by simpa using hmem)
          · simpa [hb'] using hmem
        · exact hmem
  | exit _ hstack hkind => exact ⟨gone, h.exit (ht _ _ rfl) hstack hkind⟩
  | halt _ _ _ =>
    exact ⟨gone, h.joiner, h.ended, h.finished, h.value, h.low, h.queue, h.elsewhere, h.frames⟩
  | @other t o k held fs r v' s' hrun hstack hkind _ =>
    refine ⟨gone, h.perform hrun (ht t o rfl) hstack (by simp [hkind]) (by simp [hkind]) r
      (l := held) ?_
      (fun u hu => ?_) rfl (hkept.others t o rfl hkind) rfl fun b _ hmem => hmem⟩
    · simp [Pool.setStack]
    · simp [Pool.setStack, hu]

/-- One step of `t₀`. -/
theorem Joining.step_joiner {e : Happening T E O} (h : S.Joining a t₀ loop may workers gone n c)
    (hloop : S.Awaits a loop) (hne : t₀ ∉ workers) (hmutex : S.mutex a = false) (hstep : S.Step c e c')
    (ht : e = .leave t₀ ∨ ∃ o, e = .perform t₀ o) :
    ∃ n', S.Joining a t₀ loop may workers gone n' c' := by
  have hcall : ∀ o, (∃ k, loop n = .call o k) →
      (n = 0 ∧ S.kind o = .exit) ∨ ∃ n', n = n' + 1 ∧ S.kind o = .passeren a := by
    rintro o ⟨k, heq⟩
    cases n with
    | zero =>
      obtain ⟨o', k', heq', hkind⟩ := hloop.zero
      rw [heq] at heq'
      cases heq'
      exact .inl ⟨rfl, hkind⟩
    | succ n =>
      obtain ⟨o', k', heq', hkind, -, -⟩ := hloop.succ n
      rw [heq] at heq'
      cases heq'
      exact .inr ⟨n, rfl, hkind⟩
  obtain rfl | ⟨o, rfl⟩ := ht
  · cases hstep with
    | leave hrun hstack =>
      rw [h.joiner hrun.dead] at hstack
      obtain ⟨hframe, -⟩ := List.cons.inj hstack
      obtain ⟨hprog, -⟩ := Frame.mk.inj hframe
      cases n with
      | zero =>
        obtain ⟨o, k, heq, -⟩ := hloop.zero
        rw [hprog] at heq
        cases heq
      | succ n =>
        obtain ⟨o, k, heq, -⟩ := hloop.succ n
        rw [hprog] at heq
        cases heq
  · cases hstep with
    | @passeren _ _ k held fs b r hrun hstack hkind =>
      obtain ⟨heq, rfl, rfl⟩ := h.joiner_call hstack
      obtain ⟨-, hexit⟩ | ⟨n, rfl, hP⟩ := hcall o ⟨k, heq⟩
      · rw [hkind] at hexit
        cases hexit
      · rw [hkind] at hP
        cases hP
        obtain ⟨o', k', heq', -, hk, -⟩ := hloop.succ n
        rw [heq] at heq'
        cases heq'
        rw [hk r]
        exact ⟨n, h.passeren hne hmutex hrun⟩
    | exit hrun hstack hkind =>
      obtain ⟨heq, -, -⟩ := h.joiner_call hstack
      obtain ⟨rfl, -⟩ | ⟨n, rfl, hP⟩ := hcall o ⟨_, heq⟩
      · exact ⟨0, h.last hne hrun⟩
      · rw [hkind] at hP
        cases hP
    | verhogen hrun hstack hkind =>
      obtain ⟨heq, -, -⟩ := h.joiner_call hstack
      obtain ⟨-, hother⟩ | ⟨-, -, hother⟩ := hcall o ⟨_, heq⟩ <;> rw [hkind] at hother <;> cases hother
    | halt hrun hstack hkind =>
      obtain ⟨heq, -, -⟩ := h.joiner_call hstack
      obtain ⟨-, hother⟩ | ⟨-, -, hother⟩ := hcall o ⟨_, heq⟩ <;> rw [hkind] at hother <;> cases hother
    | other hrun hstack hkind _ =>
      obtain ⟨heq, -, -⟩ := h.joiner_call hstack
      obtain ⟨-, hother⟩ | ⟨-, -, hother⟩ := hcall o ⟨_, heq⟩ <;> rw [hkind] at hother <;> cases hother

/-- One step keeps the count of the V's. -/
theorem Joining.step {e : Happening T E O} (h : S.Joining a t₀ loop may workers gone n c)
    (hloop : S.Awaits a loop) (hne : t₀ ∉ workers) (hmutex : S.mutex a = false) (hstep : S.Step c e c')
    (hmay : ∀ t o, may t o → S.kind o = .verhogen a → t ∈ workers)
    (hkept : S.JoinKept a t₀ may c e c') :
    ∃ gone' n', S.Joining a t₀ loop may workers gone' n' c' := by
  by_cases ht : e = .leave t₀ ∨ ∃ o, e = .perform t₀ o
  · obtain ⟨n', hn'⟩ := h.step_joiner hloop hne hmutex hstep ht
    exact ⟨gone, n', hn'⟩
  · obtain ⟨gone', hgone'⟩ := h.step_other hstep hkept hmay
      (fun t o heq htt => ht (.inr ⟨o, htt ▸ heq⟩))
      fun heq => ht (.inl heq)
    exact ⟨gone', n, hgone'⟩

omit [DecidableEq T] [DecidableEq A] in
/-- When `t₀` is about to end, all workers have finished. -/
theorem Joining.all_finished (h : S.Joining a t₀ loop may workers gone n c) (hloop : S.Awaits a loop)
    (hrun : c.Running t₀) (hfin : S.Finished c t₀) : ∀ t ∈ workers, S.Finished c t := by
  obtain ⟨hpos, -⟩ := h.value_nonneg hrun.ready
  have hexit := (finished_cons (h.joiner hrun.dead) hrun.dead).mp hfin
  have hn : n = 0 := by
    cases n with
    | zero => rfl
    | succ n =>
      obtain ⟨o, k, heq, hkind⟩ := hexit
      obtain ⟨o', k', heq', hkind', -⟩ := hloop.succ n
      rw [show loop (n + 1) = _ from heq] at heq'
      cases heq'
      rw [hkind] at hkind'
      cases hkind'
  have hsub : gone ⊆ workers := fun t ht => ((h.finished t).mp ht).1
  have hcard : workers.card ≤ gone.card := by
    have := h.value
    omega
  have heq := Finset.eq_of_subset_of_card_le hsub hcard
  exact fun t ht => ((h.finished t).mp (heq ▸ ht)).2

/-- Once all workers have finished, `t₀` makes its P's without waiting. -/
theorem Joining.exists_path {s : System (Pool T A O R σ) (Happening T E O)}
    (h : S.Joining a t₀ loop may workers gone n c) (hloop : S.Awaits a loop) (hne : t₀ ∉ workers)
    (hmutex : S.mutex a = false) (hall : ∀ t ∈ workers, S.Finished c t) (hhalted : c.halted = false)
    (hdead : c.dead t₀ = false)
    (hstep : ∀ c o c', S.Step c (.perform t₀ o) c' → S.kind o = .passeren a → c.dead t₀ = false →
      s.step c (.perform t₀ o) c') :
    ∃ l c', s.Path c l c' ∧ c'.Running t₀ ∧ S.Finished c' t₀ := by
  have heq : gone = workers := by
    ext t
    exact ⟨fun ht => ((h.finished t).mp ht).1, fun ht => (h.finished t).mpr ⟨ht, hall t ht⟩⟩
  clear hall
  have hrun : ∀ {n c}, S.Joining a t₀ loop may workers gone n c → c.halted = false → c.dead t₀ = false →
      c.Running t₀ ∧ (n : Int) = c.value a := by
    intro n c h hhalted hdead
    have hvalue : (n : Int) = c.value a := by
      have := h.value
      rw [heq] at this
      omega
    refine ⟨⟨hhalted, hdead, fun ⟨b, hb⟩ => ?_⟩, hvalue⟩
    by_cases hba : b = a
    · rw [hba, h.queue, if_neg (by omega)] at hb
      exact absurd hb List.not_mem_nil
    · exact h.elsewhere b hba hb
  induction n generalizing c with
  | zero =>
    obtain ⟨o, k, hexit⟩ := hloop.zero
    exact ⟨[], c, .nil, (hrun h hhalted hdead).1, .inr ⟨_, [], h.joiner hdead, o, k, hexit⟩⟩
  | succ n ih =>
    obtain ⟨o, k, hprog, hkind, hk, ⟨r⟩⟩ := hloop.succ n
    obtain ⟨hrunning, hvalue⟩ := hrun h hhalted hdead
    have hstack : c.stack t₀ = [⟨.call o k, []⟩] := by
      rw [h.joiner hdead, hprog]
    have hP : S.Step c (.perform t₀ o) _ := .passeren (r := r) hrunning hstack hkind
    rw [hk r] at hP
    obtain ⟨l, c', hpath, hends⟩ := ih (h.passeren hne hmutex hrunning) hhalted hdead
    exact ⟨_, c', .cons (hstep _ _ _ hP hkind hdead) hpath, hends⟩

end Threads

end Exec
