import Mathlib.Data.List.Basic
import Mathlib.Data.List.Infix
import Mathlib.Data.Nat.ModEq

/-!
# Numbered fragments over a channel that loses some

A message is cut into frames, which carry a number modulo `N`; the first frame of a message is
marked.  A receiver puts a message together from its first frame on, as long as the numbers follow
one another.

* `Protocol`: the frames and the receiver, with what the receiver does in its two kinds of states.
* `arrive`: what a channel leaves of the frames, with a flag for each frame.
* `exists_run_arrive`: if the channel never loses `N` frames in a row, then the messages that are
  delivered are exactly those all of whose frames arrive, in their order.
-/

namespace Fragments

/-- How messages are cut into frames, and how they are put together again.  A step of the receiver
gives the values of the messages that are complete; `none` is a failure. -/
structure Protocol (N : ℕ) (μ φ σ β : Type*) where
  /-- the number of frames -/
  count : μ → ℕ
  /-- the frame of a message at an index, with its number -/
  frame : μ → ℕ → ℕ → φ
  value : μ → List β
  step : σ → φ → Option (σ × List β)
  /-- no message is being put together -/
  Idle : σ → Prop
  /-- the first frames of a message have been put together; the last one has the number `q` -/
  Holds : σ → μ → ℕ → ℕ → Prop
  count_pos : ∀ m, 0 < count m
  first : ∀ {s} m {q}, (Idle s ∨ ∃ m' k q', Holds s m' k q') → q < N →
    ∃ s', step s (frame m 0 q) = some (s', if 1 = count m then value m else []) ∧ Holds s' m 1 q
  next : ∀ {s m k q}, Holds s m k q → k < count m →
    ∃ s', step s (frame m k ((q + 1) % N)) = some (s', if k + 1 = count m then value m else []) ∧
      Holds s' m (k + 1) ((q + 1) % N)
  other : ∀ {s m' k' q' m k q}, Holds s m' k' q' → 0 < k → k < count m → q < N →
    (q' + 1) % N ≠ q → ∃ s', step s (frame m k q) = some (s', []) ∧ Idle s'
  idle : ∀ {s m k q}, Idle s → 0 < k → k < count m → q < N →
    ∃ s', step s (frame m k q) = some (s', []) ∧ Idle s'

/-! ## The channel -/

/-- What arrives of a list, with a flag for each element. -/
def arrive {φ : Type*} : List Bool → List φ → List φ
  | true :: flags, x :: xs => x :: arrive flags xs
  | false :: flags, _ :: xs => arrive flags xs
  | _, _ => []

theorem arrive_append {φ : Type*} {fs : List Bool} {xs : List φ} (h : fs.length = xs.length)
    (gs : List Bool) (ys : List φ) :
    arrive (fs ++ gs) (xs ++ ys) = arrive fs xs ++ arrive gs ys := by
  induction fs generalizing xs with
  | nil =>
    obtain rfl := List.length_eq_zero_iff.1 h.symm
    rfl
  | cons f fs ih =>
    cases xs with
    | nil => cases h
    | cons x xs =>
      have hxs := ih (Nat.succ.inj h)
      cases f
      · exact hxs
      · exact congrArg (x :: ·) hxs

variable {N : ℕ}

/-- Never are `N` frames lost in a row; `l` have been lost already. -/
def Bounded (N l : ℕ) (flags : List Bool) : Prop :=
  ¬ List.replicate N false <:+: List.replicate l false ++ flags

theorem Bounded.lt {l : ℕ} {flags : List Bool} (h : Bounded N l flags) : l < N := by
  by_contra hl
  refine h (List.IsInfix.trans ?_ (List.prefix_append _ _).isInfix)
  refine ⟨[], List.replicate (l - N) false, ?_⟩
  rw [List.nil_append, List.replicate_append_replicate, Nat.add_sub_cancel' (Nat.le_of_not_lt hl)]

theorem Bounded.lost {l : ℕ} {flags : List Bool} (h : Bounded N l (false :: flags)) :
    Bounded N (l + 1) flags := by
  rwa [Bounded, List.replicate_succ', List.append_assoc]

theorem Bounded.arrived {l : ℕ} {f : Bool} {flags : List Bool} (h : Bounded N l (f :: flags)) :
    Bounded N 0 flags := fun hinf =>
  h (hinf.trans ⟨List.replicate l false ++ [f], [], by simp⟩)

namespace Protocol

variable {μ φ σ β : Type*} (P : Protocol N μ φ σ β)

/-- The frames of a message from an index on; `n` is the number of the first frame. -/
def framesFrom (n : ℕ) (m : μ) (k : ℕ) : List φ :=
  (List.range' k (P.count m - k)).map fun i => P.frame m i ((n + i) % N)

/-- The frames of messages that are sent one after the other. -/
def sent (n : ℕ) : List μ → List φ
  | [] => []
  | m :: ms => P.framesFrom n m 0 ++ sent (n + P.count m) ms

/-- The values of the messages all of whose frames arrive. -/
def delivered : List μ → List Bool → List β
  | [], _ => []
  | m :: ms, flags =>
    (if (flags.take (P.count m)).all id then P.value m else []) ++
      delivered ms (flags.drop (P.count m))

/-- The receiver's run, with what it delivers. -/
def run : σ → List φ → Option (σ × List β)
  | s, [] => some (s, [])
  | s, x :: xs => do
    let (s, out) ← P.step s x
    let (s, outs) ← run s xs
    some (s, out ++ outs)

variable {P}

theorem length_framesFrom (n : ℕ) (m : μ) (k : ℕ) :
    (P.framesFrom n m k).length = P.count m - k := by
  rw [framesFrom, List.length_map, List.length_range']

theorem framesFrom_of_lt (n : ℕ) {m : μ} {k : ℕ} (hk : k < P.count m) :
    P.framesFrom n m k = P.frame m k ((n + k) % N) :: P.framesFrom n m (k + 1) := by
  rw [framesFrom, show P.count m - k = P.count m - (k + 1) + 1 by omega, List.range'_succ]
  rfl

theorem sent_congr {n n' : ℕ} (h : n ≡ n' [MOD N]) (ms : List μ) : P.sent n ms = P.sent n' ms := by
  induction ms generalizing n n' with
  | nil => rfl
  | cons m ms ih =>
    have hframes : P.framesFrom n m 0 = P.framesFrom n' m 0 :=
      List.map_congr_left fun i _ => congrArg (P.frame m i) (h.add_right i)
    rw [sent, sent, hframes, ih (h.add_right _)]

theorem framesFrom_count (n : ℕ) (m : μ) : P.framesFrom n m (P.count m) = [] := by
  rw [framesFrom, Nat.sub_self]
  rfl

theorem run_cons_of_step {s t u : σ} {x : φ} {xs : List φ} {out outs : List β}
    (hx : P.step s x = some (t, out)) (hxs : P.run t xs = some (u, outs)) :
    P.run s (x :: xs) = some (u, out ++ outs) := by
  simp [run, hx, hxs]

theorem run_singleton_of_step {s t : σ} {x : φ} {out : List β} (hx : P.step s x = some (t, out)) :
    P.run s [x] = some (t, out) := by
  simp [run, hx]

theorem run_append_of_run {s t u : σ} {xs ys : List φ} {out outs : List β}
    (hxs : P.run s xs = some (t, out)) (hys : P.run t ys = some (u, outs)) :
    P.run s (xs ++ ys) = some (u, out ++ outs) := by
  induction xs generalizing s out with
  | nil =>
    cases hxs
    exact hys
  | cons x xs ih =>
    simp only [run, Option.bind_eq_bind, Option.bind_eq_some_iff, Option.some.injEq,
      Prod.exists, Prod.mk.injEq] at hxs
    obtain ⟨s₁, out₁, hx, t₁, out₂, hrun, rfl, rfl⟩ := hxs
    rw [List.append_assoc]
    exact run_cons_of_step hx (ih hrun)

/-- The last frame that the receiver used was sent `l + 1` frames before the frame that has the
number `n`. -/
def Behind (P : Protocol N μ φ σ β) (s : σ) (n l : ℕ) : Prop :=
  P.Idle s ∨ ∃ m k q, P.Holds s m k q ∧ q + 1 + l ≡ n [MOD N]

theorem Behind.lost {s : σ} {n l : ℕ} (h : P.Behind s n l) : P.Behind s (n + 1) (l + 1) := by
  refine h.imp_right ?_
  rintro ⟨m, k, q, hs, hq⟩
  exact ⟨m, k, q, hs, hq.add_right 1⟩

theorem Behind.idle_or_holds {s : σ} {n l : ℕ} (h : P.Behind s n l) :
    P.Idle s ∨ ∃ m k q, P.Holds s m k q := by
  refine h.imp_right ?_
  rintro ⟨m, k, q, hs, -⟩
  exact ⟨m, k, q, hs⟩

/-- After a loss, no later frame of the message is used. -/
theorem exists_run_of_lost {s : σ} {n l k : ℕ} {m : μ} {flags back : List Bool}
    (hs : P.Idle s ∨ 0 < l ∧ P.Behind s (n + k) l) (hk : 0 < k)
    (hlen : flags.length = P.count m - k) (hkm : k ≤ P.count m)
    (hflags : Bounded N l (flags ++ back)) :
    ∃ s' l', P.run s (arrive flags (P.framesFrom n m k)) = some (s', []) ∧
      P.Behind s' (n + P.count m) l' ∧ Bounded N l' back := by
  induction flags generalizing s l k with
  | nil =>
    obtain rfl : k = P.count m := by
      rw [List.length_nil] at hlen
      omega
    rw [framesFrom_count]
    exact ⟨s, l, rfl, hs.elim .inl And.right, hflags⟩
  | cons f flags ih =>
    rw [List.length_cons] at hlen
    have hk' : k < P.count m := by omega
    rw [framesFrom_of_lt n hk']
    cases f with
    | false =>
      exact ih (hs.imp_right fun h => ⟨Nat.succ_pos l, h.2.lost⟩) (Nat.succ_pos k) (by omega) hk'
        hflags.lost
    | true =>
      have hmod : (n + k) % N < N := Nat.mod_lt _ (Nat.zero_lt_of_lt hflags.lt)
      have hidle : ∃ t, P.step s (P.frame m k ((n + k) % N)) = some (t, []) ∧ P.Idle t := by
        rcases hs with hs | ⟨hl, hs | ⟨m', k', q, hs, hq⟩⟩
        · exact P.idle hs hk hk' hmod
        · exact P.idle hs hk hk' hmod
        · refine P.other hs hk hk' hmod fun heq => ?_
          -- fewer than `N` frames were lost since, so the numbers differ
          have hzero : l ≡ 0 [MOD N] :=
            Nat.ModEq.add_left_cancel' (q + 1) (hq.trans (Nat.ModEq.symm heq))
          rw [Nat.ModEq, Nat.mod_eq_of_lt hflags.lt, Nat.zero_mod] at hzero
          omega
      obtain ⟨t, hstep, ht⟩ := hidle
      obtain ⟨s', l', hrun, hs', hl'⟩ :=
        ih (.inl ht) (Nat.succ_pos k) (by omega) hk' hflags.arrived
      exact ⟨s', l', run_cons_of_step hstep hrun, hs', hl'⟩

/-- A message is delivered with its last frame if no frame of it is lost. -/
theorem exists_run_of_holds {s : σ} {n k q : ℕ} {m : μ} {flags back : List Bool}
    (hs : P.Holds s m k q) (hq : q + 1 ≡ n + k [MOD N]) (hk : 0 < k)
    (hlen : flags.length = P.count m - k) (hkm : k < P.count m)
    (hflags : Bounded N 0 (flags ++ back)) :
    ∃ s' l', P.run s (arrive flags (P.framesFrom n m k)) =
        some (s', if flags.all id then P.value m else []) ∧
      P.Behind s' (n + P.count m) l' ∧ Bounded N l' back := by
  induction flags generalizing s k q with
  | nil =>
    rw [List.length_nil] at hlen
    omega
  | cons f flags ih =>
    rw [List.length_cons] at hlen
    rw [framesFrom_of_lt n hkm]
    have hbehind : P.Behind s (n + k) 0 := .inr ⟨m, k, q, hs, hq⟩
    cases f with
    | false =>
      exact exists_run_of_lost (.inr ⟨Nat.one_pos, hbehind.lost⟩) (Nat.succ_pos k) (by omega) hkm
        hflags.lost
    | true =>
      obtain ⟨t, hstep, ht⟩ := P.next hs hkm
      have hnext : (q + 1) % N + 1 ≡ n + (k + 1) [MOD N] :=
        ((Nat.mod_modEq _ _).trans hq).add_right 1
      rw [(hq : (q + 1) % N = (n + k) % N)] at hstep ht hnext
      by_cases hlast : k + 1 = P.count m
      · obtain rfl : flags = [] := List.length_eq_zero_iff.1 (by omega)
        rw [if_pos hlast] at hstep
        refine ⟨t, 0, run_singleton_of_step hstep, ?_, hflags.arrived⟩
        exact .inr ⟨m, k + 1, _, ht, hlast ▸ hnext⟩
      · rw [if_neg hlast] at hstep
        obtain ⟨s', l', hrun, hs', hl'⟩ :=
          ih ht hnext (Nat.succ_pos k) (by omega) (by omega) hflags.arrived
        exact ⟨s', l', run_cons_of_step hstep hrun, hs', hl'⟩

/-- One message, from a state in which fewer than `N` frames have been lost. -/
theorem exists_run_message {s : σ} {n l : ℕ} {m : μ} {flags back : List Bool}
    (hs : P.Behind s n l) (hlen : flags.length = P.count m)
    (hflags : Bounded N l (flags ++ back)) :
    ∃ s' l', P.run s (arrive flags (P.framesFrom n m 0)) =
        some (s', if flags.all id then P.value m else []) ∧
      P.Behind s' (n + P.count m) l' ∧ Bounded N l' back := by
  have hpos := P.count_pos m
  cases flags with
  | nil =>
    rw [List.length_nil] at hlen
    omega
  | cons f flags =>
    rw [List.length_cons] at hlen
    rw [framesFrom_of_lt n hpos]
    cases f with
    | false =>
      exact exists_run_of_lost (.inr ⟨Nat.succ_pos l, hs.lost⟩) Nat.one_pos (by omega) hpos
        hflags.lost
    | true =>
      have hmod : (n + 0) % N < N := Nat.mod_lt _ (Nat.zero_lt_of_lt hflags.lt)
      obtain ⟨t, hstep, ht⟩ := P.first m hs.idle_or_holds hmod
      have hnext : (n + 0) % N + 1 ≡ n + 1 [MOD N] := (Nat.mod_modEq _ _).add_right 1
      by_cases hlast : 1 = P.count m
      · obtain rfl : flags = [] := List.length_eq_zero_iff.1 (by omega)
        rw [if_pos hlast] at hstep
        refine ⟨t, 0, run_singleton_of_step hstep, ?_, hflags.arrived⟩
        exact .inr ⟨m, 1, _, ht, hlast ▸ hnext⟩
      · rw [if_neg hlast] at hstep
        obtain ⟨s', l', hrun, hs', hl'⟩ :=
          exists_run_of_holds ht hnext Nat.one_pos (by omega) (by omega) hflags.arrived
        exact ⟨s', l', run_cons_of_step hstep hrun, hs', hl'⟩

theorem exists_run_of_behind {s : σ} {n l : ℕ} {ms : List μ} {flags : List Bool}
    (hs : P.Behind s n l) (hlen : flags.length = (P.sent n ms).length)
    (hflags : Bounded N l flags) :
    ∃ s', P.run s (arrive flags (P.sent n ms)) = some (s', P.delivered ms flags) := by
  induction ms generalizing s n l flags with
  | nil =>
    obtain rfl := List.length_eq_zero_iff.1 hlen
    exact ⟨s, rfl⟩
  | cons m ms ih =>
    rw [sent, List.length_append, length_framesFrom, Nat.sub_zero] at hlen
    have htake : (flags.take (P.count m)).length = P.count m :=
      List.length_take_of_le (by omega)
    have hdrop : (flags.drop (P.count m)).length = (P.sent (n + P.count m) ms).length := by
      rw [List.length_drop]
      omega
    rw [← List.take_append_drop (P.count m) flags] at hflags
    obtain ⟨t, l', hrun, ht, hl'⟩ := exists_run_message hs htake hflags
    obtain ⟨s', hrun'⟩ := ih ht hdrop hl'
    refine ⟨s', ?_⟩
    rw [sent, delivered, ← run_append_of_run hrun hrun', ← arrive_append
      (htake.trans ((length_framesFrom n m 0).trans (Nat.sub_zero _)).symm), List.take_append_drop]

/-- **If the channel never loses `N` frames in a row, exactly the messages that arrive in full are
delivered.** -/
theorem exists_run_arrive {s : σ} {n : ℕ} {ms : List μ} {flags : List Bool} (hs : P.Idle s)
    (hlen : flags.length = (P.sent n ms).length)
    (hflags : ¬ List.replicate N false <:+: flags) :
    ∃ s', P.run s (arrive flags (P.sent n ms)) = some (s', P.delivered ms flags) :=
  exists_run_of_behind (l := 0) (.inl hs) hlen hflags

end Protocol

end Fragments
