import Mathlib.Data.Finset.Card
import Mathlib.Data.List.Sort
import Mathlib.Order.Defs.LinearOrder

/-!
# Finite sets kept in ascending order

A set is the strictly ascending list of its elements, so iteration order is part
of the value and two sets with the same elements are equal. Insertion of a present
element and erasure of an absent one change nothing.
-/

set_option autoImplicit false

universe u v

structure OrderedSet (α : Type u) [LinearOrder α] where
  elems : List α
  ascending : elems.Pairwise (· < ·)
deriving DecidableEq

namespace OrderedSet

variable {α : Type u} {β : Type v} [LinearOrder α]

instance : Membership α (OrderedSet α) := ⟨fun s a => a ∈ s.elems⟩

instance (a : α) (s : OrderedSet α) : Decidable (a ∈ s) :=
  inferInstanceAs (Decidable (a ∈ s.elems))

@[simp] theorem mem_elems {s : OrderedSet α} {a : α} : a ∈ s.elems ↔ a ∈ s := Iff.rfl

theorem nodup (s : OrderedSet α) : s.elems.Nodup :=
  s.ascending.imp fun h => ne_of_lt h

/-- Extensionality: the order of the elements is determined by which they are. -/
@[ext] theorem ext {s t : OrderedSet α} (h : ∀ a, a ∈ s ↔ a ∈ t) : s = t := by
  have hperm : s.elems.Perm t.elems :=
    (List.perm_ext_iff_of_nodup s.nodup t.nodup).mpr h
  have helems : s.elems = t.elems :=
    hperm.eq_of_pairwise (fun a b _ _ hab hba => absurd hab (lt_asymm hba)) s.ascending t.ascending
  cases s
  cases t
  simp_all

instance : EmptyCollection (OrderedSet α) := ⟨⟨[], .nil⟩⟩

@[simp] theorem notMem_empty (a : α) : a ∉ (∅ : OrderedSet α) := List.not_mem_nil

@[simp] theorem elems_empty : (∅ : OrderedSet α).elems = [] := rfl

theorem pairwise_orderedInsert {a : α} {l : List α} (ha : a ∉ l)
    (hl : l.Pairwise (· < ·)) : (l.orderedInsert (· < ·) a).Pairwise (· < ·) := by
  induction l with
  | nil => simp
  | cons b l ih =>
    obtain ⟨hb, hl⟩ := List.pairwise_cons.mp hl
    have hne : a ≠ b := fun h => ha (h ▸ List.mem_cons_self)
    by_cases hab : a < b
    · rw [List.orderedInsert_cons_of_le _ _ hab]
      refine List.pairwise_cons.mpr ⟨?_, List.pairwise_cons.mpr ⟨hb, hl⟩⟩
      intro c hc
      rcases List.mem_cons.mp hc with rfl | hc
      · exact hab
      · exact hab.trans (hb c hc)
    · rw [List.orderedInsert_of_not_le _ _ hab]
      refine List.pairwise_cons.mpr ⟨?_, ih (fun h => ha (List.mem_cons_of_mem b h)) hl⟩
      intro c hc
      rcases (List.mem_orderedInsert _).mp hc with rfl | hc
      · exact lt_of_le_of_ne (le_of_not_gt hab) hne.symm
      · exact hb c hc

def insert (a : α) (s : OrderedSet α) : OrderedSet α :=
  if h : a ∈ s then s
  else ⟨s.elems.orderedInsert (· < ·) a, pairwise_orderedInsert h s.ascending⟩

@[simp] theorem mem_insert {a b : α} {s : OrderedSet α} :
    b ∈ s.insert a ↔ b = a ∨ b ∈ s := by
  unfold insert
  split
  · rename_i h
    constructor
    · exact Or.inr
    · intro hmem
      rcases hmem with rfl | hb
      · exact h
      · exact hb
  · exact List.mem_orderedInsert _

theorem length_insert {a : α} {s : OrderedSet α} (h : a ∉ s) :
    (s.insert a).elems.length = s.elems.length + 1 := by
  rw [insert, dif_neg h]
  exact List.orderedInsert_length ..

def filter (p : α → Bool) (s : OrderedSet α) : OrderedSet α :=
  ⟨s.elems.filter p, s.ascending.filter p⟩

@[simp] theorem mem_filter {p : α → Bool} {s : OrderedSet α} {a : α} :
    a ∈ s.filter p ↔ a ∈ s ∧ p a = true := List.mem_filter

@[simp] theorem elems_filter (p : α → Bool) (s : OrderedSet α) :
    (s.filter p).elems = s.elems.filter p := rfl

theorem filter_filter (p q : α → Bool) (s : OrderedSet α) :
    (s.filter p).filter q = s.filter fun a => p a && q a := by
  ext a
  simp [and_assoc]

theorem filter_eq_self {p : α → Bool} {s : OrderedSet α} (h : ∀ a ∈ s, p a = true) :
    s.filter p = s := by
  ext a
  simpa using h a

def erase (a : α) (s : OrderedSet α) : OrderedSet α := s.filter fun b => decide (b ≠ a)

@[simp] theorem mem_erase {a b : α} {s : OrderedSet α} : b ∈ s.erase a ↔ b ∈ s ∧ b ≠ a := by
  simp [erase]

theorem erase_of_notMem {a : α} {s : OrderedSet α} (h : a ∉ s) : s.erase a = s := by
  ext b
  rw [mem_erase]
  constructor
  · exact And.left
  · intro hb
    exact ⟨hb, fun he => h (he ▸ hb)⟩

/-- The loop `for b in l: if f b gives a, insert a`, started from the empty set. -/
def collect (f : β → Option α) (l : List β) : OrderedSet α :=
  l.foldl (fun s b => match f b with
    | some a => s.insert a
    | none => s) ∅

theorem mem_foldl_insert (f : β → Option α) (l : List β) (s : OrderedSet α) (a : α) :
    a ∈ l.foldl (fun s b => match f b with
      | some a => s.insert a
      | none => s) s ↔ a ∈ s ∨ ∃ b ∈ l, f b = some a := by
  induction l generalizing s with
  | nil => simp
  | cons b l ih =>
    rw [List.foldl_cons, ih]
    cases hf : f b with
    | none => simp [hf]
    | some c =>
      simp only [mem_insert, List.exists_mem_cons_iff, hf, Option.some.injEq]
      rw [or_comm (a := a = c), or_assoc, eq_comm (a := a)]

@[simp] theorem mem_collect {f : β → Option α} {l : List β} {a : α} :
    a ∈ collect f l ↔ ∃ b ∈ l, f b = some a := by
  simp [collect, mem_foldl_insert]

/-- A set has as many elements as its image exactly when no two of them have the same image. -/
theorem length_image_eq_iff [LinearOrder β] {f : α → β} {s : OrderedSet α} {t : OrderedSet β}
    (h : ∀ b, b ∈ t ↔ ∃ a ∈ s, f a = b) :
    t.elems.length = s.elems.length ↔ ∀ a ∈ s, ∀ a' ∈ s, f a = f a' → a = a' := by
  have himage : t.elems.toFinset = s.elems.toFinset.image f := by
    ext b
    rw [List.mem_toFinset, Finset.mem_image]
    simpa using h b
  rw [← List.toFinset_card_of_nodup t.nodup, ← List.toFinset_card_of_nodup s.nodup, himage,
    Finset.card_image_iff]
  constructor
  · intro hinj a ha a' ha' heq
    exact hinj (by simpa using ha) (by simpa using ha') heq
  · intro hinj a ha a' ha' heq
    exact hinj a (by simpa using ha) a' (by simpa using ha') heq

end OrderedSet
