import Unotu.Cards.Data

/-!
# What a search finds

A row matches a query when every word of the query, lower-cased, occurs in its lower-cased
title or in its lower-cased content. `SearchCards` returns the matching rows in the order
of the `SELECT`.
-/

set_option autoImplicit false

namespace Unotu.Cards

open Words

variable {toLower : Text → Text} {order : TitleOrder} {table : CardsTable}

def Occurs (toLower : Text → Text) (card : Card) (word : Text) : Prop :=
  toLower word <:+: toLower card.title ∨ toLower word <:+: toLower card.content

instance (card : Card) (word : Text) : Decidable (Occurs toLower card word) :=
  inferInstanceAs (Decidable (_ ∨ _))

/-- Every maximal run of non-space characters of the query occurs in the card. -/
def Matches (toLower : Text → Text) (Query : Text) (card : Card) : Prop :=
  ∀ word, IsRun space Query word → Occurs toLower card word

theorem matches_iff_words {Query : Text} {card : Card} :
    Matches toLower Query card ↔ ∀ word ∈ words space Query, Occurs toLower card word := by
  simp only [Matches, mem_words_iff]

instance (Query : Text) (card : Card) : Decidable (Matches toLower Query card) :=
  decidable_of_iff _ matches_iff_words.symm

theorem matchesQueries_iff (card : Card) (Queries : List Text) :
    matchesQueries toLower card Queries = true ↔ ∀ word ∈ Queries, Occurs toLower card word := by
  induction Queries with
  | nil => simp [matchesQueries]
  | cons Part Queries ih =>
    have hPart : ((find (toLower card.title) (toLower Part)).isSome ||
        (find (toLower card.content) (toLower Part)).isSome) = true ↔ Occurs toLower card Part := by
      rw [Bool.or_eq_true, find_isSome_iff, find_isSome_iff, Occurs]
    rw [List.forall_mem_cons, ← ih, ← hPart, matchesQueries]
    split
    · rename_i h
      simp only [h, true_and]
    · rename_i h
      simp [h]

def found (toLower : Text → Text) (order : TitleOrder) (table : CardsTable) (Query : Text) :
    List (Int64 × CardRow) :=
  (order.select table).filter fun row => decide (Matches toLower Query (readRow row).toCard)

theorem allCards_eq (rows : List (Int64 × CardRow)) : allCards rows = rows.map readRow := by
  have hloop : ∀ Results, rows.foldl (fun Results row => Results ++ [readRow row]) Results =
      Results ++ rows.map readRow := by
    induction rows with
    | nil => simp
    | cons row rows ih =>
      intro Results
      rw [List.foldl_cons, ih]
      simp
  exact (hloop []).trans (List.nil_append _)

theorem filteredCards_eq (SplitQuery : List Text) (rows : List (Int64 × CardRow)) :
    filteredCards toLower SplitQuery rows =
      (rows.filter fun row => matchesQueries toLower (readRow row).toCard SplitQuery).map readRow := by
  have hloop : ∀ Results, rows.foldl
      (fun Results row =>
        if matchesQueries toLower (readRow row).toCard SplitQuery then Results ++ [readRow row]
        else Results) Results =
      Results ++
        (rows.filter fun row => matchesQueries toLower (readRow row).toCard SplitQuery).map readRow := by
    induction rows with
    | nil => simp
    | cons row rows ih =>
      intro Results
      rw [List.foldl_cons, ih]
      by_cases h : matchesQueries toLower (readRow row).toCard SplitQuery = true
      · simp [h]
      · simp [h]
  exact (hloop []).trans (List.nil_append _)

/-- Without words the filtering loop does what the unfiltered one does. -/
theorem filteredCards_nil (rows : List (Int64 × CardRow)) :
    filteredCards toLower [] rows = allCards rows := by
  rw [filteredCards_eq, allCards_eq]
  simp [matchesQueries]

theorem searchCards_eq (Query : StdString) :
    searchCards toLower order table Query =
      some ((found toLower order table Query.bytes).map readRow) := by
  have hfilter : filteredCards toLower (words space Query.bytes) (order.select table) =
      (found toLower order table Query.bytes).map readRow := by
    rw [filteredCards_eq, found]
    congr 1
    apply List.filter_congr
    intro row _
    rw [Bool.eq_iff_iff, matchesQueries_iff, decide_eq_true_iff, matches_iff_words]
  rw [← hfilter]
  simp only [searchCards, splitSearchQuery_eq, Option.bind_eq_bind, Option.bind_some]
  split
  · rename_i h
    rw [List.eq_nil_of_length_eq_zero h, filteredCards_nil]
  · rfl

theorem mem_found_iff {Query : Text} {row : Int64 × CardRow} :
    row ∈ found toLower order table Query ↔
      row ∈ table.rows ∧ Matches toLower Query (readRow row).toCard := by
  rw [found, List.mem_filter, decide_eq_true_iff, (order.perm table).mem_iff]

theorem found_nodup (Query : Text) : (found toLower order table Query).Nodup :=
  ((order.perm table).nodup_iff.mpr table.rows_nodup).filter _

theorem found_of_spaces {Query : Text} (h : ∀ c ∈ Query, c = space) :
    found toLower order table Query = order.select table := by
  rw [found, List.filter_eq_self]
  intro row _
  rw [decide_eq_true_iff, matches_iff_words, words_eq_nil_iff.mpr h]
  simp

/-- A search returns exactly the matching rows, each once and in the order of the `SELECT`;
a query of spaces returns all of them, as the filtering loop would without words. -/
theorem searchCards_exact (toLower : Text → Text) (order : TitleOrder) (table : CardsTable)
    (Query : StdString) :
    ∃ selected, searchCards toLower order table Query = some (selected.map readRow) ∧
      selected.Sublist (order.select table) ∧ selected.Nodup ∧
      (∀ row, row ∈ selected ↔
        row ∈ table.rows ∧ Matches toLower Query.bytes (readRow row).toCard) ∧
      ((∀ c ∈ Query.bytes, c = space) → selected = order.select table) ∧
      allCards (order.select table) = filteredCards toLower [] (order.select table) :=
  ⟨found toLower order table Query.bytes, searchCards_eq Query, List.filter_sublist,
    found_nodup Query.bytes, fun _ => mem_found_iff, found_of_spaces,
    (filteredCards_nil _).symm⟩

/-! ## Search as you type -/

/-- `ToLower` maps each character independently of the others. -/
def MapsEachCharacter (toLower : Text → Text) : Prop :=
  ∃ lower : UInt8 → UInt8, ∀ s, toLower s = s.map lower

theorem Occurs.of_prefix (hLower : MapsEachCharacter toLower) {card : Card} {word longer : Text}
    (hword : word <+: longer) (h : Occurs toLower card longer) : Occurs toLower card word := by
  obtain ⟨lower, hmap⟩ := hLower
  have hsub : toLower word <:+: toLower longer := by
    rw [hmap, hmap]
    exact (hword.map lower).isInfix
  rcases h with h | h
  · exact Or.inl (hsub.trans h)
  · exact Or.inr (hsub.trans h)

theorem Matches.of_append (hLower : MapsEachCharacter toLower) {Query s : Text} {card : Card}
    (h : Matches toLower (Query ++ s) card) : Matches toLower Query card := by
  intro word hword
  obtain ⟨longer, hlonger, hprefix⟩ := exists_extension s (mem_words_iff.mpr hword)
  exact Occurs.of_prefix hLower hprefix (h longer (mem_words_iff.mp hlonger))

theorem matches_join_iff {Q1 Q2 : Text} {card : Card} :
    Matches toLower (Q1 ++ space :: Q2) card ↔
      Matches toLower Q1 card ∧ Matches toLower Q2 card := by
  simp only [matches_iff_words, words_append_cons, List.forall_mem_append]

theorem found_append_sublist (hLower : MapsEachCharacter toLower) (Query s : Text) :
    (found toLower order table (Query ++ s)).Sublist (found toLower order table Query) := by
  apply List.monotone_filter_right
  intro row h
  rw [decide_eq_true_iff] at h ⊢
  exact h.of_append hLower

theorem readRow_mem_iff {Query : Text} {row : Int64 × CardRow} (h : row ∈ order.select table) :
    readRow row ∈ (found toLower order table Query).map readRow ↔
      Matches toLower Query (readRow row).toCard := by
  rw [List.mem_map]
  constructor
  · rintro ⟨other, hother, heq⟩
    rw [← heq]
    exact (mem_found_iff.mp hother).2
  · intro hmatch
    exact ⟨row, mem_found_iff.mpr ⟨(order.perm table).mem_iff.mp h, hmatch⟩, rfl⟩

theorem found_join (Q1 Q2 : Text) :
    (found toLower order table (Q1 ++ space :: Q2)).map readRow =
      ((found toLower order table Q1).map readRow).filter
        fun card => decide (card ∈ (found toLower order table Q2).map readRow) := by
  have hrow : ∀ row ∈ order.select table,
      decide (Matches toLower (Q1 ++ space :: Q2) (readRow row).toCard) =
        (decide (readRow row ∈ (found toLower order table Q2).map readRow) &&
          decide (Matches toLower Q1 (readRow row).toCard)) := by
    intro row hrow
    rw [Bool.eq_iff_iff, Bool.and_eq_true, decide_eq_true_iff, decide_eq_true_iff,
      decide_eq_true_iff, readRow_mem_iff hrow, matches_join_iff, and_comm]
  rw [List.filter_map]
  apply congrArg (List.map readRow)
  exact (List.filter_congr hrow).trans List.filter_filter.symm

theorem found_congr {Q Q' : Text} (h : ∀ word, IsRun space Q word ↔ IsRun space Q' word) :
    found toLower order table Q = found toLower order table Q' := by
  apply List.filter_congr
  intro row _
  rw [decide_eq_decide, Matches, Matches]
  simp only [h]

/-- Typing on narrows a search, and a search for two queries joined by a space is the
intersection of the two searches, whatever the order and the repetition of the words. -/
theorem search_as_you_type (toLower : Text → Text) (hLower : MapsEachCharacter toLower)
    (order : TitleOrder) (table : CardsTable) :
    (∀ (Query longer : StdString) (s : Text), longer.bytes = Query.bytes ++ s →
      ∃ results narrowed, searchCards toLower order table Query = some results ∧
        searchCards toLower order table longer = some narrowed ∧ narrowed.Sublist results) ∧
    (∀ Q1 Q2 joined : StdString, joined.bytes = Q1.bytes ++ space :: Q2.bytes →
      ∃ first second, searchCards toLower order table Q1 = some first ∧
        searchCards toLower order table Q2 = some second ∧
        searchCards toLower order table joined =
          some (first.filter fun card => decide (card ∈ second))) ∧
    (∀ Query other : StdString,
      (∀ word, IsRun space Query.bytes word ↔ IsRun space other.bytes word) →
      searchCards toLower order table Query = searchCards toLower order table other) := by
  refine ⟨?_, ?_, ?_⟩
  · intro Query longer s hlonger
    refine ⟨_, _, searchCards_eq Query, searchCards_eq longer, ?_⟩
    rw [hlonger]
    exact (found_append_sublist hLower Query.bytes s).map readRow
  · intro Q1 Q2 joined hjoined
    refine ⟨_, _, searchCards_eq Q1, searchCards_eq Q2, ?_⟩
    rw [searchCards_eq, hjoined, found_join]
  · intro Query other hruns
    rw [searchCards_eq, searchCards_eq, found_congr hruns]

/-- `std::tolower` in the C locale. -/
def asciiLower (s : Text) : Text := s.map fun c => if 65 ≤ c ∧ c ≤ 90 then c + 32 else c

def fizzTable : CardsTable :=
  ⟨[(1, ⟨some ⟨[70, 105, 122, 122], by decide⟩, none⟩)], by decide⟩

theorem search_as_you_type_ascii :
    (∀ (Query longer : StdString) (s : Text), longer.bytes = Query.bytes ++ s →
      ∃ results narrowed,
        searchCards asciiLower TitleOrder.stable fizzTable Query = some results ∧
        searchCards asciiLower TitleOrder.stable fizzTable longer = some narrowed ∧
        narrowed.Sublist results) ∧
    (∀ Q1 Q2 joined : StdString, joined.bytes = Q1.bytes ++ space :: Q2.bytes →
      ∃ first second,
        searchCards asciiLower TitleOrder.stable fizzTable Q1 = some first ∧
        searchCards asciiLower TitleOrder.stable fizzTable Q2 = some second ∧
        searchCards asciiLower TitleOrder.stable fizzTable joined =
          some (first.filter fun card => decide (card ∈ second))) ∧
    (∀ Query other : StdString,
      (∀ word, IsRun space Query.bytes word ↔ IsRun space other.bytes word) →
      searchCards asciiLower TitleOrder.stable fizzTable Query =
        searchCards asciiLower TitleOrder.stable fizzTable other) :=
  search_as_you_type asciiLower ⟨_, fun _ => rfl⟩ TitleOrder.stable fizzTable

end Unotu.Cards
