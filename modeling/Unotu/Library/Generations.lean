import Mathlib.Logic.Basic

/-!
# Generations of keys

A key that has become free may come into use again for something else. The generation of a
key in use says when it came into use, so a reference that keeps the generation denotes what it
was made for, or nothing, as long as the key is not given away again.
-/

set_option autoImplicit false

universe u

structure Generations (ι : Type u) where
  born : ι → Option Nat
  clock : Nat

namespace Generations

variable {ι : Type u}

/-- All keys in use are of the first generation. -/
def start (used : ι → Prop) [DecidablePred used] : Generations ι where
  born k := if used k then some 0 else none
  clock := 1

/-- From now on other keys are in use. -/
def observe (g : Generations ι) (used : ι → Prop) [DecidablePred used] : Generations ι where
  born k := if used k then some ((g.born k).getD g.clock) else none
  clock := g.clock + 1

/-- `g` has a generation for exactly the keys in use, and none of the future. -/
structure Of (g : Generations ι) (used : ι → Prop) : Prop where
  used_iff : ∀ k, (∃ b, g.born k = some b) ↔ used k
  earlier : ∀ k b, g.born k = some b → b < g.clock

/-- A reference to `k` that was made in generation `b` leads to what it was made for, or to
nothing. -/
def Denotes (g : Generations ι) (k : ι) (b : Nat) : Prop := g.born k = none ∨ g.born k = some b

variable {g : Generations ι} {used used' : ι → Prop} [DecidablePred used] [DecidablePred used']

omit [DecidablePred used] in
theorem Of.observe (h : g.Of used) : (g.observe used').Of used' where
  used_iff k := by
    by_cases hk : used' k
    · simp [Generations.observe, hk]
    · simp [Generations.observe, hk]
  earlier k b hb := by
    simp only [Generations.observe] at hb ⊢
    split at hb
    · cases hb
      cases hborn : g.born k with
      | none =>
        simp only [Option.getD_none]
        omega
      | some b =>
        have hlt := h.earlier k b hborn
        simp only [Option.getD_some]
        omega
    · cases hb

end Generations
