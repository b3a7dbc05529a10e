import Mathlib.Data.List.Basic

/-!
# Words of a list

The words of a list are its maximal non-empty runs without the separator, in order and
with repetitions.
-/

set_option autoImplicit false

universe u

namespace Words

variable {α : Type u} [DecidableEq α] {sep : α}

def words (sep : α) (l : List α) : List (List α) :=
  (l.splitOn sep).filter fun w => decide (w ≠ [])

/-- `w` is a maximal non-empty run without `sep` in `l`. -/
structure IsRun (sep : α) (l w : List α) : Prop where
  ne_nil : w ≠ []
  free : sep ∉ w
  placed : ∃ before after, l = before ++ w ++ after ∧
    (before = [] ∨ before.getLast? = some sep) ∧ (after = [] ∨ after.head? = some sep)

theorem words_of_notMem {l : List α} (h : sep ∉ l) : words sep l = if l = [] then [] else [l] := by
  rw [words, List.splitOn_eq_singleton h]
  split
  · rename_i hl
    simp [hl]
  · rename_i hl
    simp [hl]

theorem words_append_cons (a b : List α) :
    words sep (a ++ sep :: b) = words sep a ++ words sep b := by
  simp only [words, List.splitOn_append_cons_self, List.filter_append]

@[simp] theorem words_nil : words sep [] = [] := by
  simp [words]

/-- Induction on the number of separators, from the first one on. -/
theorem separator_induction {P : List α → Prop} (single : ∀ a, sep ∉ a → P a)
    (split : ∀ a b, sep ∉ a → P b → P (a ++ sep :: b)) (l : List α) : P l := by
  generalize hn : l.length = n
  induction n using Nat.strongRecOn generalizing l with
  | _ n ih =>
    by_cases hmem : sep ∈ l
    · obtain ⟨a, b, rfl, ha⟩ := List.eq_append_cons_of_mem hmem
      have hlt : b.length < n := by
        simp only [List.length_append, List.length_cons] at hn
        omega
      exact split a b ha (ih b.length hlt b rfl)
    · exact single l hmem

theorem isRun_of_mem {l w : List α} (h : w ∈ words sep l) : IsRun sep l w := by
  induction l using @separator_induction _ _ sep with
  | single a ha =>
    rw [words_of_notMem ha] at h
    split at h
    · simp at h
    · rename_i hne
      obtain rfl := List.mem_singleton.mp h
      exact ⟨hne, ha, [], [], by simp, Or.inl rfl, Or.inl rfl⟩
  | split a b ha ih =>
    rw [words_append_cons, words_of_notMem ha] at h
    rcases List.mem_append.mp h with h | h
    · split at h
      · simp at h
      · rename_i hne
        obtain rfl := List.mem_singleton.mp h
        exact ⟨hne, ha, [], sep :: b, by simp, Or.inl rfl, Or.inr rfl⟩
    · obtain ⟨hne, hfree, before, after, rfl, hbefore, hafter⟩ := ih h
      refine ⟨hne, hfree, a ++ sep :: before, after, by simp, Or.inr ?_, hafter⟩
      rcases hbefore with rfl | hlast
      · simp
      · rw [List.getLast?_append_cons]
        cases before with
        | nil => simp at hlast
        | cons c before => rwa [List.getLast?_cons_cons]

theorem mem_of_isRun {l w : List α} (h : IsRun sep l w) : w ∈ words sep l := by
  obtain ⟨hne, hfree, before, after, rfl, hbefore, hafter⟩ := h
  have hw : words sep w = [w] := by
    rw [words_of_notMem hfree, if_neg hne]
  have hright : w ∈ words sep (w ++ after) := by
    cases after with
    | nil => simp [hw]
    | cons c after =>
      have hc : c = sep := by simpa using hafter
      subst c
      rw [words_append_cons, hw]
      exact List.mem_append_left _ (List.mem_singleton.mpr rfl)
  rcases hbefore with rfl | hlast
  · simpa using hright
  · obtain ⟨init, rfl⟩ := List.getLast?_eq_some_iff.mp hlast
    rw [List.append_assoc, List.append_assoc, List.singleton_append, words_append_cons]
    exact List.mem_append_right _ hright

theorem mem_words_iff {l w : List α} : w ∈ words sep l ↔ IsRun sep l w :=
  ⟨isRun_of_mem, mem_of_isRun⟩

/-! ## Where the words are -/

/-- `w` is a maximal non-empty run without `sep` that starts at index `k` of `l`. -/
structure IsRunAt (sep : α) (l : List α) (k : Nat) (w : List α) : Prop where
  ne_nil : w ≠ []
  free : sep ∉ w
  placed : ∃ before after, l = before ++ w ++ after ∧ before.length = k ∧
    (before = [] ∨ before.getLast? = some sep) ∧ (after = [] ∨ after.head? = some sep)

omit [DecidableEq α] in
theorem isRunAt_of_notMem {l w : List α} {k : Nat} (h : sep ∉ l) :
    IsRunAt sep l k w ↔ k = 0 ∧ w = l ∧ l ≠ [] := by
  constructor
  · rintro ⟨hne, -, before, after, rfl, rfl, hbefore, hafter⟩
    simp only [List.mem_append, not_or] at h
    have hbefore' : before = [] := by
      rcases hbefore with hnil | hlast
      · exact hnil
      · exact absurd (List.mem_of_getLast? hlast) h.1.1
    have hafter' : after = [] := by
      rcases hafter with hnil | hhead
      · exact hnil
      · exact absurd (List.mem_of_mem_head? hhead) h.2
    subst before
    subst after
    refine ⟨rfl, by simp, ?_⟩
    simpa using hne
  · rintro ⟨rfl, rfl, hne⟩
    exact ⟨hne, h, [], [], by simp, rfl, Or.inl rfl, Or.inl rfl⟩

omit [DecidableEq α] in
/-- No run reaches over a separator. -/
theorem isRunAt_append_cons {a b w : List α} {k : Nat} :
    IsRunAt sep (a ++ sep :: b) k w ↔
      IsRunAt sep a k w ∨ ∃ i, k = a.length + 1 + i ∧ IsRunAt sep b i w := by
  constructor
  · rintro ⟨hne, hfree, before, after, heq, rfl, hbefore, hafter⟩
    rcases List.append_eq_append_iff.mp heq.symm with ⟨c, rfl, rfl⟩ | ⟨c, hc, hrest⟩
    · -- the run ends before the separator
      refine Or.inl ⟨hne, hfree, before, c, rfl, rfl, hbefore, ?_⟩
      cases c with
      | nil => exact Or.inl rfl
      | cons x c => simpa using hafter
    · rcases List.append_eq_append_iff.mp hc with ⟨d, rfl, rfl⟩ | ⟨d, rfl, rfl⟩
      · cases c with
        | nil => exact Or.inl ⟨hne, hfree, before, [], by simp, rfl, hbefore, Or.inl rfl⟩
        | cons x c =>
          have hx : sep = x := (List.cons.inj hrest).1
          subst x
          simp at hfree
      · -- the run starts after the separator
        cases d with
        | nil =>
          cases w with
          | nil => exact absurd rfl hne
          | cons x w =>
            have hx : sep = x := (List.cons.inj hrest).1
            subst x
            simp at hfree
        | cons x d =>
          obtain ⟨hx, hb⟩ := List.cons.inj hrest
          subst x
          refine Or.inr ⟨d.length, ?_, hne, hfree, d, after, hb, rfl, ?_, hafter⟩
          · simp only [List.length_append, List.length_cons]
            omega
          · cases d with
            | nil => exact Or.inl rfl
            | cons y d => simpa [List.getLast?_append_cons] using hbefore
  · intro hruns
    rcases hruns with ⟨hne, hfree, before, after, rfl, rfl, hbefore, hafter⟩ |
      ⟨i, rfl, hne, hfree, before, after, rfl, rfl, hbefore, hafter⟩
    · refine ⟨hne, hfree, before, after ++ sep :: b, by simp, rfl, hbefore, Or.inr ?_⟩
      cases after with
      | nil => rfl
      | cons x after => simpa using hafter
    · refine ⟨hne, hfree, a ++ sep :: before, after, by simp, ?_, Or.inr ?_, hafter⟩
      · simp only [List.length_append, List.length_cons]
        omega
      · cases before with
        | nil => simp
        | cons x before => simpa [List.getLast?_append_cons] using hbefore

theorem starts_of_notMem {a : List α} (ha : sep ∉ a) :
    ∃ starts : List Nat, starts.Pairwise (· < ·) ∧ (∀ k ∈ starts, k = 0) ∧
      starts.length = (words sep a).length ∧
      ∀ k w, IsRunAt sep a k w ↔ (k, w) ∈ starts.zip (words sep a) := by
  rw [words_of_notMem ha]
  by_cases hnil : a = []
  · refine ⟨[], .nil, by simp, by simp [hnil], ?_⟩
    intro k w
    rw [isRunAt_of_notMem ha]
    simp [hnil]
  · refine ⟨[0], List.pairwise_singleton _ _, by simp, by simp [hnil], ?_⟩
    intro k w
    rw [isRunAt_of_notMem ha]
    simp [hnil]

/-- The words are all the runs, one for each place, in the order of their places. -/
theorem exists_starts (l : List α) :
    ∃ starts : List Nat, starts.Pairwise (· < ·) ∧ starts.length = (words sep l).length ∧
      ∀ k w, IsRunAt sep l k w ↔ (k, w) ∈ starts.zip (words sep l) := by
  induction l using @separator_induction _ _ sep with
  | single a ha =>
    obtain ⟨starts, hsorted, -, hlength, hiff⟩ := starts_of_notMem ha
    exact ⟨starts, hsorted, hlength, hiff⟩
  | split a b ha ih =>
    obtain ⟨starts, hsorted, hlength, hiff⟩ := ih
    obtain ⟨first, hfirst, hzero, hfirst_length, hfirst_iff⟩ := starts_of_notMem ha
    refine ⟨first ++ starts.map fun i => a.length + 1 + i, ?_, ?_, ?_⟩
    · rw [List.pairwise_append]
      refine ⟨hfirst, ?_, ?_⟩
      · rw [List.pairwise_map]
        apply hsorted.imp
        intro i j hij
        omega
      · intro k hk m hm
        obtain ⟨i, -, rfl⟩ := List.mem_map.mp hm
        rw [hzero k hk]
        omega
    · rw [words_append_cons, List.length_append, List.length_append, List.length_map, hlength,
        hfirst_length]
    · intro k w
      rw [words_append_cons, isRunAt_append_cons, List.zip_append hfirst_length, List.mem_append,
        hfirst_iff, List.zip_map_left, List.mem_map]
      apply or_congr_right
      constructor
      · rintro ⟨i, rfl, hrun⟩
        exact ⟨(i, w), (hiff i w).mp hrun, rfl⟩
      · rintro ⟨⟨i, v⟩, hmem, heq⟩
        obtain ⟨hk, hv⟩ := Prod.mk.inj heq
        exact ⟨i, hk.symm, (hiff i w).mpr (by simpa [← hv] using hmem)⟩

theorem flatten_words_of_notMem {a : List α} (ha : sep ∉ a) : (words sep a).flatten = a := by
  rw [words_of_notMem ha]
  split
  · rename_i hnil
    rw [hnil, List.flatten_nil]
  · simp

theorem flatten_words (l : List α) :
    (words sep l).flatten = l.filter fun c => decide (c ≠ sep) := by
  have hkeep : ∀ a : List α, sep ∉ a → a.filter (fun c => decide (c ≠ sep)) = a := by
    intro a ha
    rw [List.filter_eq_self]
    intro c hc
    have hne : c ≠ sep := fun heq => ha (heq ▸ hc)
    simpa using hne
  induction l using @separator_induction _ _ sep with
  | single a ha => rw [flatten_words_of_notMem ha, hkeep a ha]
  | split a b ha ih =>
    rw [words_append_cons, List.flatten_append, ih, flatten_words_of_notMem ha, List.filter_append,
      hkeep a ha, List.filter_cons]
    simp

theorem words_eq_nil_iff {l : List α} : words sep l = [] ↔ ∀ c ∈ l, c = sep := by
  induction l using @separator_induction _ _ sep with
  | single a ha =>
    rw [words_of_notMem ha]
    constructor
    · intro h
      split at h
      · rename_i hnil
        simp [hnil]
      · simp at h
    · intro h
      have hnil : a = [] := by
        cases a with
        | nil => rfl
        | cons c a => exact absurd (h c List.mem_cons_self) fun hc => ha (hc ▸ List.mem_cons_self)
      simp [hnil]
  | split a b ha ih =>
    rw [words_append_cons, words_of_notMem ha, List.append_eq_nil_iff, ih]
    constructor
    · rintro ⟨hnil, hb⟩ c hc
      split at hnil
      · rename_i ha'
        subst a
        rcases List.mem_cons.mp hc with hc | hc
        · exact hc
        · exact hb c hc
      · simp at hnil
    · intro h
      refine ⟨?_, fun c hc => h c (by simp [hc])⟩
      cases a with
      | nil => rfl
      | cons c a => exact absurd (h c (by simp)) fun hc => ha (hc ▸ List.mem_cons_self)

/-- Appending to a list extends its words: none is lost, the last one may get longer. -/
theorem exists_extension {l w : List α} (s : List α) (h : w ∈ words sep l) :
    ∃ v ∈ words sep (l ++ s), w <+: v := by
  induction l using @separator_induction _ _ sep with
  | single a ha =>
    rw [words_of_notMem ha] at h
    split at h
    · simp at h
    · rename_i hne
      obtain rfl := List.mem_singleton.mp h
      by_cases hs : sep ∈ s
      · obtain ⟨t, u, rfl, ht⟩ := List.eq_append_cons_of_mem hs
        refine ⟨w ++ t, ?_, List.prefix_append w t⟩
        have hfree : sep ∉ w ++ t := by simp [ha, ht]
        rw [← List.append_assoc, words_append_cons, words_of_notMem hfree]
        simp [hne]
      · refine ⟨w ++ s, ?_, List.prefix_append w s⟩
        have hfree : sep ∉ w ++ s := by simp [ha, hs]
        rw [words_of_notMem hfree]
        simp [hne]
  | split a b ha ih =>
    rw [List.append_assoc, List.cons_append, words_append_cons]
    rw [words_append_cons] at h
    rcases List.mem_append.mp h with h | h
    · exact ⟨w, List.mem_append_left _ h, List.prefix_rfl⟩
    · obtain ⟨v, hv, hwv⟩ := ih h
      exact ⟨v, List.mem_append_right _ hv, hwv⟩

end Words
