import Mathlib.Data.List.Chain
import Mathlib.Data.List.Nodup
import Mathlib.Logic.Function.Basic
import Mathlib.Tactic.Common

namespace Links

/-- A machine word used as a pointer into a table of `ι`: the null pointer, the
zero that static storage starts as, or the address of an entry. -/
inductive Ptr (ι : Type) where
  | null
  | zero
  | to (i : ι)
  deriving DecidableEq, Repr

variable {ι : Type}

/-- `Segment next p l q`: following `next` from `p` visits exactly the entries
of `l`, in order, and then arrives at the pointer `q`. -/
def Segment (next : ι → Ptr ι) : Ptr ι → List ι → Ptr ι → Prop
  | p, [], q => p = q
  | p, x :: l, q => p = .to x ∧ Segment next (next x) l q

@[simp] theorem segment_nil {next : ι → Ptr ι} {p q : Ptr ι} : Segment next p [] q ↔ p = q :=
  Iff.rfl

@[simp] theorem segment_cons {next : ι → Ptr ι} {p q : Ptr ι} {x : ι} {l : List ι} :
    Segment next p (x :: l) q ↔ p = .to x ∧ Segment next (next x) l q :=
  Iff.rfl

theorem segment_append {next : ι → Ptr ι} {p q : Ptr ι} {l l' : List ι} :
    Segment next p (l ++ l') q ↔ ∃ m, Segment next p l m ∧ Segment next m l' q := by
  induction l generalizing p with
  | nil => simp
  | cons x l ih => simp [ih, and_assoc]

/-- Only the links of the visited entries matter. -/
theorem Segment.congr {next next' : ι → Ptr ι} {p q : Ptr ι} {l : List ι}
    (h : Segment next p l q) (hsame : ∀ x ∈ l, next' x = next x) : Segment next' p l q := by
  induction l generalizing p with
  | nil => exact h
  | cons x l ih =>
    refine ⟨h.1, ih ?_ fun y hy => hsame y (List.mem_cons_of_mem _ hy)⟩
    rw [hsame x List.mem_cons_self]
    exact h.2

theorem Segment.of_append_cons {next : ι → Ptr ι} {p q : Ptr ι} {c l : List ι} {w : ι}
    (h : Segment next p (c ++ w :: l) q) : Segment next (next w) l q := by
  obtain ⟨m, -, hm⟩ := segment_append.mp h
  exact hm.2

/-- Redirecting the link of `w` cuts a segment behind `w`. -/
theorem Segment.redirect [DecidableEq ι] {next : ι → Ptr ι} {p q r : Ptr ι} {c l : List ι} {w : ι}
    (h : Segment next p (c ++ w :: l) q) (hw : w ∉ c) :
    Segment (Function.update next w r) p (c ++ [w]) r := by
  obtain ⟨m, hc, hm⟩ := segment_append.mp h
  refine segment_append.mpr ⟨m, hc.congr ?_, hm.1, by simp⟩
  intro x hx
  have hne : x ≠ w := fun heq => hw (heq ▸ hx)
  simp [hne]

/-- Linking a new entry in behind `w`. -/
theorem Segment.insert [DecidableEq ι] {next : ι → Ptr ι} {p q : Ptr ι} {c l : List ι} {w x : ι}
    (h : Segment next p (c ++ w :: l) q) (hw : (c ++ w :: l).Nodup) (hx : x ∉ c ++ w :: l) :
    Segment (Function.update (Function.update next x (next w)) w (.to x)) p (c ++ w :: x :: l) q := by
  obtain ⟨m, hc, hm, htail⟩ := segment_append.mp h
  have hxc : x ∉ c := fun hmem => hx (List.mem_append_left _ hmem)
  have hxw : x ≠ w := fun heq => hx (by simp [heq])
  have hxl : x ∉ l := fun hmem => hx (by simp [hmem])
  have hwc : w ∉ c := fun hmem => (List.nodup_append.mp hw).2.2 w hmem w List.mem_cons_self rfl
  have hwl : w ∉ l := (List.nodup_cons.mp (List.nodup_append.mp hw).2.1).1
  refine segment_append.mpr ⟨m, hc.congr ?_, hm, by simp, ?_⟩
  · intro y hy
    rw [Function.update_of_ne (ne_of_mem_of_not_mem hy hwc),
      Function.update_of_ne (ne_of_mem_of_not_mem hy hxc)]
  · rw [Function.update_of_ne hxw, Function.update_self]
    refine htail.congr ?_
    intro y hy
    rw [Function.update_of_ne (ne_of_mem_of_not_mem hy hwl),
      Function.update_of_ne (ne_of_mem_of_not_mem hy hxl)]

/-- A null-terminated segment is determined by its first pointer. -/
theorem Segment.unique {next : ι → Ptr ι} {p : Ptr ι} {l l' : List ι}
    (h : Segment next p l .null) (h' : Segment next p l' .null) : l = l' := by
  induction l generalizing p l' with
  | nil =>
    cases l' with
    | nil => rfl
    | cons y l' => exact absurd (h.symm.trans h'.1) (by simp)
  | cons x l ih =>
    cases l' with
    | nil => exact absurd (h.1.symm.trans h') (by simp)
    | cons y l' =>
      obtain rfl : x = y := by simpa using h.1.symm.trans h'.1
      rw [ih h.2 h'.2]

/-- The pointer that starts a list of entries ending in `null`. -/
def headPtr : List ι → Ptr ι
  | [] => .null
  | x :: _ => .to x

@[simp] theorem headPtr_nil : headPtr ([] : List ι) = .null := rfl

@[simp] theorem headPtr_cons (x : ι) (l : List ι) : headPtr (x :: l) = .to x := rfl

@[simp] theorem headPtr_eq_null {l : List ι} : headPtr l = .null ↔ l = [] := by
  cases l <;> simp

/-- Collects the entries met from `p` along `next` until a pointer other than
an entry or the pointer `stop` is met, at most `fuel` of them. -/
def walk [DecidableEq ι] (next : ι → Ptr ι) (stop : Ptr ι) : Nat → Ptr ι → List ι
  | 0, _ => []
  | fuel + 1, p =>
    if p = stop then []
    else match p with
      | .to x => x :: walk next stop fuel (next x)
      | _ => []

theorem Segment.walk_eq [DecidableEq ι] {next : ι → Ptr ι} {p q : Ptr ι} {l : List ι} {fuel : Nat}
    (h : Segment next p l q) (hstop : ∀ x ∈ l, q ≠ .to x) (hfuel : l.length ≤ fuel) :
    walk next q fuel p = l := by
  induction l generalizing p fuel with
  | nil =>
    cases fuel with
    | zero => rfl
    | succ fuel => simp [walk, segment_nil.mp h]
  | cons x l ih =>
    obtain ⟨rfl, htail⟩ := h
    cases fuel with
    | zero => simp at hfuel
    | succ fuel =>
      have hne : Ptr.to x ≠ q := (hstop x List.mem_cons_self).symm
      rw [walk, if_neg hne]
      simp only [List.cons.injEq, true_and]
      exact ih htail (fun y hy => hstop y (List.mem_cons_of_mem _ hy)) (by simpa using hfuel)

end Links
