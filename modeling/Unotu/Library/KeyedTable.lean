import Mathlib.Data.List.Nodup

/-!
# Tables with a primary key

A table is a list of rows in which no key occurs twice. The statements on one key match
at most one row.
-/

set_option autoImplicit false

universe u v

/-- A table whose primary key is unique. -/
structure KeyedTable (ι : Type u) (ρ : Type v) where
  rows : List (ι × ρ)
  distinct : (rows.map Prod.fst).Nodup

namespace KeyedTable

variable {ι : Type u} {ρ : Type v}

def keys (t : KeyedTable ι ρ) : List ι := t.rows.map Prod.fst

def Has (t : KeyedTable ι ρ) (k : ι) : Prop := k ∈ t.keys

def Holds (t : KeyedTable ι ρ) (k : ι) (r : ρ) : Prop := (k, r) ∈ t.rows

theorem Holds.has {t : KeyedTable ι ρ} {k : ι} {r : ρ} (h : t.Holds k r) : t.Has k :=
  List.mem_map.mpr ⟨(k, r), h, rfl⟩

theorem has_iff_exists {t : KeyedTable ι ρ} {k : ι} : t.Has k ↔ ∃ r, t.Holds k r := by
  constructor
  · intro h
    obtain ⟨⟨j, r⟩, hmem, rfl⟩ := List.mem_map.mp h
    exact ⟨r, hmem⟩
  · rintro ⟨r, h⟩
    exact h.has

theorem Holds.unique {t : KeyedTable ι ρ} {k : ι} {r s : ρ} (hr : t.Holds k r)
    (hs : t.Holds k s) : r = s :=
  congrArg Prod.snd (List.inj_on_of_nodup_map t.distinct hr hs rfl)

theorem rows_nodup (t : KeyedTable ι ρ) : t.rows.Nodup := List.Nodup.of_map _ t.distinct

def empty : KeyedTable ι ρ := ⟨[], List.nodup_nil⟩

def insert (t : KeyedTable ι ρ) (k : ι) (r : ρ) (h : ¬ t.Has k) : KeyedTable ι ρ where
  rows := t.rows ++ [(k, r)]
  distinct := by
    rw [List.map_append, List.nodup_append]
    refine ⟨t.distinct, by simp, ?_⟩
    rintro a ha b hb rfl
    obtain rfl : a = k := by simpa using hb
    exact h ha

theorem holds_insert_iff {t : KeyedTable ι ρ} {k j : ι} {r s : ρ} (h : ¬ t.Has k) :
    (t.insert k r h).Holds j s ↔ t.Holds j s ∨ j = k ∧ s = r := by
  simp [Holds, insert]

section Statements

variable [DecidableEq ι]

instance (t : KeyedTable ι ρ) (k : ι) : Decidable (t.Has k) := inferInstanceAs (Decidable (k ∈ _))

def select (t : KeyedTable ι ρ) (k : ι) : Option ρ := t.rows.lookup k

/-- The number of rows that a statement on this key matches. -/
def matching (t : KeyedTable ι ρ) (k : ι) : Nat := t.rows.countP (·.1 = k)

def update (t : KeyedTable ι ρ) (k : ι) (r : ρ) : KeyedTable ι ρ where
  rows := t.rows.map fun row => if row.1 = k then (k, r) else row
  distinct := by
    have hkeys : Prod.fst ∘ (fun row : ι × ρ => if row.1 = k then (k, r) else row) = Prod.fst := by
      funext row
      simp only [Function.comp_apply]
      split
      · rename_i h
        exact h.symm
      · rfl
    rw [List.map_map, hkeys]
    exact t.distinct

def delete (t : KeyedTable ι ρ) (k : ι) : KeyedTable ι ρ where
  rows := t.rows.filter (·.1 ≠ k)
  distinct := t.distinct.sublist (List.filter_sublist.map _)

theorem select_eq_some_iff {t : KeyedTable ι ρ} {k : ι} {r : ρ} :
    t.select k = some r ↔ t.Holds k r := by
  have hdistinct := t.distinct
  unfold select Holds
  generalize t.rows = rows at hdistinct ⊢
  induction rows with
  | nil => simp
  | cons row rows ih =>
    obtain ⟨j, s⟩ := row
    rw [List.map_cons, List.nodup_cons] at hdistinct
    have htail : rows.lookup k = some r ↔ (k, r) ∈ rows := ih hdistinct.2
    rw [List.mem_cons, ← htail, List.lookup_cons]
    by_cases h : k = j
    · subst k
      have hnone : rows.lookup j = none := by
        rw [List.lookup_eq_none_iff]
        rintro ⟨i, q⟩ hmem
        rw [bne_iff_ne]
        intro heq
        exact hdistinct.1 (List.mem_map.mpr ⟨(i, q), hmem, heq.symm⟩)
      simp [hnone, eq_comm]
    · have hbeq : (k == j) = false := beq_eq_false_iff_ne.mpr h
      simp [hbeq, h]

theorem matching_pos_iff {t : KeyedTable ι ρ} {k : ι} : 0 < t.matching k ↔ t.Has k := by
  rw [matching, List.countP_pos_iff, Has, keys, List.mem_map]
  simp

theorem holds_update_iff {t : KeyedTable ι ρ} {k j : ι} {r s : ρ} :
    (t.update k r).Holds j s ↔ j = k ∧ s = r ∧ t.Has k ∨ j ≠ k ∧ t.Holds j s := by
  simp only [Holds, update, List.mem_map]
  constructor
  · rintro ⟨⟨i, q⟩, hmem, heq⟩
    split at heq
    · rename_i h
      cases heq
      exact Or.inl ⟨rfl, rfl, h ▸ Holds.has hmem⟩
    · rename_i h
      cases heq
      exact Or.inr ⟨h, hmem⟩
  · intro hrow
    rcases hrow with ⟨rfl, rfl, hhas⟩ | ⟨hne, hmem⟩
    · obtain ⟨q, hq⟩ := has_iff_exists.mp hhas
      exact ⟨(j, q), hq, by simp⟩
    · exact ⟨(j, s), hmem, by simp [hne]⟩

/-- Writing a row back changes nothing exactly when it is the row that was there. -/
theorem update_eq_self_iff {t : KeyedTable ι ρ} {k : ι} {r s : ρ} (hs : t.Holds k s) :
    t.update k r = t ↔ r = s := by
  constructor
  · intro heq
    have hr : (t.update k r).Holds k r := holds_update_iff.mpr (Or.inl ⟨rfl, rfl, hs.has⟩)
    rw [heq] at hr
    exact hr.unique hs
  · intro heq
    subst r
    have hrows : t.rows.map (fun row => if row.1 = k then (k, s) else row) = t.rows := by
      conv_rhs => rw [← List.map_id t.rows]
      apply List.map_congr_left
      rintro ⟨j, q⟩ hmem
      split
      · rename_i h
        cases h
        rw [Holds.unique hs hmem]
        rfl
      · rfl
    cases t
    simp only [update, hrows]

theorem holds_delete_iff {t : KeyedTable ι ρ} {k j : ι} {s : ρ} :
    (t.delete k).Holds j s ↔ j ≠ k ∧ t.Holds j s := by
  simp [Holds, delete, and_comm]

theorem has_delete_iff {t : KeyedTable ι ρ} {k j : ι} : (t.delete k).Has j ↔ j ≠ k ∧ t.Has j := by
  simp only [has_iff_exists, holds_delete_iff, exists_and_left]

end Statements

end KeyedTable
