import Unotu.Library.KeyedTable
import Mathlib.Data.List.Forall2

/-!
# Tables that represent tables

A table with simple keys and contents may be kept in one with other keys and contents: row by
row, the keys are images under an injection and the contents are related. Every statement on
one key then does to the one table what it does to the other.
-/

set_option autoImplicit false

universe u v w x

namespace KeyedTable

variable {κ : Type u} {σ : Type v} {ι : Type w} {ρ : Type x}

def RowRepresents (key : κ → ι) (R : σ → ρ → Prop) (entry : κ × σ) (row : ι × ρ) : Prop :=
  row.1 = key entry.1 ∧ R entry.2 row.2

/-- The rows of the second table are those of the first one, as they are kept. -/
def Represents (key : κ → ι) (R : σ → ρ → Prop) (d : KeyedTable κ σ) (t : KeyedTable ι ρ) : Prop :=
  List.Forall₂ (RowRepresents key R) d.rows t.rows

variable {key : κ → ι} {R : σ → ρ → Prop} {d : KeyedTable κ σ} {t : KeyedTable ι ρ}

theorem represents_empty : (empty : KeyedTable κ σ).Represents key R (empty : KeyedTable ι ρ) :=
  List.Forall₂.nil

/-- What is computed from a kept row as from the row itself is computed alike from all rows. -/
theorem Represents.map_eq {α : Type*} {f : κ × σ → α} {g : ι × ρ → α} (h : d.Represents key R t)
    (hrow : ∀ entry row, RowRepresents key R entry row → g row = f entry) :
    t.rows.map g = d.rows.map f := by
  have hmap : List.Forall₂ Eq (d.rows.map f) (t.rows.map g) := by
    apply List.rel_map _ h
    intro entry row hrows
    exact (hrow entry row hrows).symm
  rw [List.forall₂_eq_eq_eq] at hmap
  exact hmap.symm

theorem Represents.exists_entry (h : d.Represents key R t) {row : ι × ρ} (hrow : row ∈ t.rows) :
    ∃ entry ∈ d.rows, RowRepresents key R entry row := by
  unfold Represents at h
  generalize d.rows = entries at h
  generalize t.rows = rows at h hrow
  induction h with
  | nil => cases hrow
  | cons hfirst _ ih =>
    rcases List.mem_cons.mp hrow with rfl | hrow
    · exact ⟨_, List.mem_cons_self, hfirst⟩
    · obtain ⟨entry, hentry, hrepresents⟩ := ih hrow
      exact ⟨entry, List.mem_cons_of_mem _ hentry, hrepresents⟩

theorem Represents.keys_eq (h : d.Represents key R t) : t.keys = d.keys.map key := by
  rw [keys, keys, List.map_map]
  exact h.map_eq fun _ _ hrow => hrow.1

theorem Represents.insert (h : d.Represents key R t) {k : κ} {s : σ} {r : ρ} (hr : R s r)
    (hd : ¬ d.Has k) (ht : ¬ t.Has (key k)) :
    (d.insert k s hd).Represents key R (t.insert (key k) r ht) :=
  List.rel_append h (.cons ⟨rfl, hr⟩ .nil)

variable (hkey : Function.Injective key)

include hkey

theorem RowRepresents.key_iff {entry : κ × σ} {row : ι × ρ} (h : RowRepresents key R entry row)
    (k : κ) : row.1 = key k ↔ entry.1 = k := by
  rw [h.1, hkey.eq_iff]

theorem Represents.has_iff (h : d.Represents key R t) {k : κ} : t.Has (key k) ↔ d.Has k := by
  rw [Has, Has, h.keys_eq, List.mem_map_of_injective hkey]

section Statements

variable [DecidableEq κ] [DecidableEq ι]

theorem Represents.update (h : d.Represents key R t) {k : κ} {s : σ} {r : ρ} (hr : R s r) :
    (d.update k s).Represents key R (t.update (key k) r) := by
  apply List.rel_map _ h
  intro entry row hrow
  simp only [hrow.key_iff hkey]
  split
  · exact ⟨rfl, hr⟩
  · exact hrow

theorem Represents.delete (h : d.Represents key R t) {k : κ} :
    (d.delete k).Represents key R (t.delete (key k)) := by
  apply List.rel_filter _ h
  intro entry row hrow
  simp only [decide_eq_true_iff, ne_eq, hrow.key_iff hkey]

theorem Represents.select (h : d.Represents key R t) {k : κ} :
    Option.Rel R (d.select k) (t.select (key k)) := by
  unfold Represents at h
  unfold KeyedTable.select
  generalize d.rows = entries at h
  generalize t.rows = rows at h
  induction h with
  | nil => exact .none
  | @cons entry row _ _ hrow _ ih =>
    obtain ⟨hrowKey, hR⟩ := hrow
    rw [List.lookup_cons, List.lookup_cons, hrowKey]
    by_cases heq : k = entry.1
    · rw [beq_iff_eq.mpr heq, beq_iff_eq.mpr (congrArg key heq)]
      exact .some hR
    · have hne : key k ≠ key entry.1 := hkey.ne heq
      rw [beq_eq_false_iff_ne.mpr heq, beq_eq_false_iff_ne.mpr hne]
      exact ih

end Statements

end KeyedTable
