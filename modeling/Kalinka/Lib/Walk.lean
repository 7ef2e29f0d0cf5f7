import Kalinka.Lib.Run

/-!
# A loop over a linked list that its body may change

The loop keeps the element that it is at, and looks for the next one in the list as it is after the
body.  `walk` is `none` if the element has been removed.

* `walk_eq_exec`: a body that leaves the list alone is run for each element, one after the other.
-/

namespace Walk

open Run

variable {σ α : Type*} [DecidableEq α] {list : σ → List α} {f : σ → α → Option σ}

/-- The element behind another one, which must be there. -/
def next (l : List α) (x : α) : Option (Option α) :=
  match l.dropWhile (· ≠ x) with
  | [] => none
  | _ :: rest => some rest.head?

/-- The loop from an element on. -/
def walkFrom (list : σ → List α) (f : σ → α → Option σ) : ℕ → σ → Option α → Option σ
  | _, s, none => some s
  | 0, _, some _ => none
  | fuel + 1, s, some x =>
    (f s x).bind fun s => (next (list s) x).bind fun y => walkFrom list f fuel s y

/-- The loop, with as many rounds as there are elements at its beginning. -/
def walk (list : σ → List α) (f : σ → α → Option σ) (s : σ) : Option σ :=
  walkFrom list f (list s).length s (list s).head?

theorem next_of_not_mem {front rest : List α} {x : α} (hx : x ∉ front) :
    next (front ++ x :: rest) x = some rest.head? := by
  have hfront : ∀ y ∈ front, decide (y ≠ x) = true := by
    intro y hy
    have hne : y ≠ x := ne_of_mem_of_not_mem hy hx
    exact decide_eq_true hne
  rw [next, List.dropWhile_append_of_pos hfront, List.dropWhile_cons_of_neg (by simp)]

/-- A body that keeps `I`, and with it the list. -/
theorem walkFrom_eq_exec {I : σ → Prop} {l : List α} (hl : l.Nodup)
    (hlist : ∀ {s}, I s → list s = l)
    (hf : ∀ {s x s'}, I s → x ∈ l → f s x = some s' → I s')
    {front back : List α} (hsplit : l = front ++ back) {s : σ} (hs : I s) :
    walkFrom list f back.length s back.head? = exec f s back := by
  induction back generalizing front s with
  | nil => rfl
  | cons x back ih =>
    rw [List.head?_cons, List.length_cons, walkFrom, exec_cons]
    refine Option.bind_congr fun s' hx => ?_
    have hmem : x ∈ l := by
      rw [hsplit]
      exact List.mem_append_right _ List.mem_cons_self
    have hs' := hf hs hmem hx
    have hfront : x ∉ front := by
      rw [hsplit] at hl
      obtain ⟨-, -, hne⟩ := List.nodup_append.1 hl
      exact fun h => hne x h x List.mem_cons_self rfl
    have hnext : next (list s') x = some back.head? := by
      rw [hlist hs', hsplit]
      exact next_of_not_mem hfront
    have hsplit' : l = (front ++ [x]) ++ back := by
      rw [hsplit, List.append_assoc]
      rfl
    rw [hnext]
    exact ih hsplit' hs'

/-- A body that leaves the list alone is run for each element, one after the other. -/
theorem walk_eq_exec {I : σ → Prop} {l : List α} (hl : l.Nodup)
    (hlist : ∀ {s}, I s → list s = l)
    (hf : ∀ {s x s'}, I s → x ∈ l → f s x = some s' → I s') {s : σ} (hs : I s) :
    walk list f s = exec f s l := by
  rw [walk, hlist hs]
  have hsplit : l = [] ++ l := rfl
  exact walkFrom_eq_exec hl hlist hf hsplit hs

end Walk
