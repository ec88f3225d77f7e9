import Mathlib.Data.List.Nodup
import VpnTunnel.Lib.Window

/-!
# Ideal channels

A channel takes messages at one end and puts out at the other end the messages that arrive. What is between the
ends may lose messages, keep them back, change their order and let one arrive any number of times; it cannot make
one. The channel puts a message out when the ideal window of `Window` accepts its number: never twice, and always
unless it was overtaken by too many.

The channel remembers everything, and is there to say what a channel of bounded memory is for.
-/

namespace Channel

variable {μ : Type}

/-- The messages put in, in order, and the numbers of those put out. -/
@[ext]
structure State (μ : Type) where
  /-- What was put in. -/
  sent : List μ
  /-- The numbers of what was put out. -/
  got : List ℕ

/-- Nothing was put in yet. -/
def State.empty : State μ := ⟨[], []⟩

/-- A message is put in. -/
def State.send (s : State μ) (m : μ) : State μ := { s with sent := s.sent ++ [m] }

/-- The window accepts the number of a message that arrives. -/
def State.Accepts (w : ℕ) (s : State μ) (k : ℕ) : Prop := Window.Accepts w {x | x ∈ s.got} k

open Classical in
/-- A message arrives. -/
noncomputable def State.arrive (w : ℕ) (s : State μ) (k : ℕ) : State μ × List μ :=
  match s.sent[k]? with
  | none => (s, [])
  | some m => if s.Accepts w k then ({ s with got := s.got ++ [k] }, [m]) else (s, [])

theorem State.arrive_of_accepts {w k : ℕ} {s : State μ} {m : μ} (hk : s.sent[k]? = some m) (h : s.Accepts w k) :
    s.arrive w k = ({ s with got := s.got ++ [k] }, [m]) := by
  rw [State.arrive, hk]
  exact if_pos h

theorem State.arrive_of_not_accepts {w k : ℕ} {s : State μ} {m : μ} (hk : s.sent[k]? = some m)
    (h : ¬ s.Accepts w k) : s.arrive w k = (s, []) := by
  rw [State.arrive, hk]
  exact if_neg h

theorem State.arrive_of_none {w k : ℕ} {s : State μ} (hk : s.sent[k]? = none) : s.arrive w k = (s, []) := by
  rw [State.arrive, hk]

theorem State.sent_arrive (w : ℕ) (s : State μ) (k : ℕ) : (s.arrive w k).1.sent = s.sent := by
  unfold State.arrive
  split
  · rfl
  · split <;> rfl

/-- A message that was put out is not put out again. -/
theorem State.not_accepts_of_mem {w k : ℕ} {s : State μ} (h : k ∈ s.got) : ¬ s.Accepts w k :=
  Window.not_accepts_of_mem (Window.isGreatest_foldr_max (List.ne_nil_of_mem h)) h

/-- The message after all those put out is put out. -/
theorem State.accepts_of_lt {w k : ℕ} {s : State μ} (h : ∀ x ∈ s.got, x < k) : s.Accepts w k :=
  fun m hm => .inl (h m hm.1)

/-! ### Nothing is put out that was not put in, and nothing more often -/

/-- What is put out was put in, under one number once. -/
structure State.Sound (s : State μ) : Prop where
  /-- No number twice. -/
  nodup : s.got.Nodup
  /-- Only numbers of what was put in. -/
  lt : ∀ k ∈ s.got, k < s.sent.length

theorem State.sound_empty : (State.empty : State μ).Sound := ⟨List.nodup_nil, nofun⟩

theorem State.Sound.send {s : State μ} (h : s.Sound) (m : μ) : (s.send m).Sound := by
  refine ⟨h.nodup, fun k hk => ?_⟩
  rw [State.send, List.length_append]
  exact Nat.lt_add_right _ (h.lt k hk)

theorem State.Sound.arrive {w : ℕ} {s : State μ} (h : s.Sound) (k : ℕ) : (s.arrive w k).1.Sound := by
  cases hk : s.sent[k]? with
  | none =>
    rw [State.arrive_of_none hk]
    exact h
  | some m =>
    by_cases hacc : s.Accepts w k
    · rw [State.arrive_of_accepts hk hacc]
      have hnew : k ∉ s.got := fun hmem => State.not_accepts_of_mem hmem hacc
      refine ⟨List.nodup_append'.mpr ⟨h.nodup, List.nodup_singleton k, ?_⟩, fun j hj => ?_⟩
      · exact List.disjoint_singleton.mpr hnew
      · rcases List.mem_append.mp hj with hj | hj
        · exact h.lt j hj
        · rw [List.mem_singleton.mp hj]
          exact (List.getElem?_eq_some_iff.mp hk).1
    · rw [State.arrive_of_not_accepts hk hacc]
      exact h

/-- The messages put out, in order. -/
def State.out (s : State μ) : List μ := s.got.filterMap fun k => s.sent[k]?

theorem State.Sound.out_send {s : State μ} (h : s.Sound) (m : μ) : (s.send m).out = s.out := by
  refine List.filterMap_congr fun k hk => ?_
  exact List.getElem?_append_left (h.lt k hk)

theorem State.out_arrive (w : ℕ) (s : State μ) (k : ℕ) : (s.arrive w k).1.out = s.out ++ (s.arrive w k).2 := by
  cases hk : s.sent[k]? with
  | none => rw [State.arrive_of_none hk, List.append_nil]
  | some m =>
    by_cases hacc : s.Accepts w k
    · rw [State.arrive_of_accepts hk hacc]
      simp [State.out, List.filterMap_append, hk]
    · rw [State.arrive_of_not_accepts hk hacc, List.append_nil]

/-- The first items of a list, by their places. -/
theorem filterMap_getElem?_range (l : List μ) (n : ℕ) : (List.range n).filterMap (fun k => l[k]?) = l.take n := by
  induction n with
  | zero => rfl
  | succ n ih =>
    rw [List.range_succ, List.filterMap_append, ih, List.take_add_one]
    cases hn : l[n]? <;> simp [hn]

/-- Messages that arrive in order are put out in order. -/
theorem State.out_of_range {s : State μ} {n : ℕ} (h : s.got = List.range n) : s.out = s.sent.take n := by
  rw [State.out, h, filterMap_getElem?_range]

/-- **A message is put out at most as often as it was put in.** -/
theorem State.Sound.count_out_le [BEq μ] {s : State μ} (h : s.Sound) (m : μ) : s.out.count m ≤ s.sent.count m := by
  have hsub : List.Subperm s.got (List.range s.sent.length) :=
    h.nodup.subperm fun k hk => List.mem_range.mpr (h.lt k hk)
  obtain ⟨l, hperm, hsublist⟩ := hsub
  have hcount := (hsublist.filterMap fun k => s.sent[k]?).count_le m
  rw [filterMap_getElem?_range, List.take_length, (hperm.filterMap fun k => s.sent[k]?).count_eq m] at hcount
  exact hcount

end Channel
