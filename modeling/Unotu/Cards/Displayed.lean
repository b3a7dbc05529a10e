import Unotu.Cards.Identity

/-!
# The displayed list and a fresh search

A right click removes the card from the table and then the item from the scrollbox, without
a new search. As long as every removal succeeds the scrollbox shows what a fresh search
would find; a removal that fails takes the item away and leaves the row.
-/

set_option autoImplicit false

namespace Unotu.Cards

/-! ## An order of its own for rows with the same title -/

/-- Which of two rows the `SELECT` returns first does not depend on the other rows. -/
def TitleOrder.Fixed (order : TitleOrder) : Prop :=
  ∃ before : Int64 × CardRow → Int64 × CardRow → Prop,
    (∀ a b, before a b → before b a → a = b) ∧ ∀ table, (order.select table).Pairwise before

theorem TitleOrder.Fixed.select_delete {order : TitleOrder} (h : order.Fixed) (table : CardsTable)
    (ID : Int64) :
    order.select (table.delete ID) = (order.select table).filter (·.1 ≠ ID) := by
  obtain ⟨before, hanti, hpairwise⟩ := h
  have hperm : (order.select (table.delete ID)).Perm ((order.select table).filter (·.1 ≠ ID)) :=
    (order.perm _).trans ((order.perm table).symm.filter _)
  exact hperm.eq_of_pairwise (fun a b _ _ => hanti a b) (hpairwise _)
    ((hpairwise table).sublist List.filter_sublist)

/-- Rows with the same title come by their IDs. -/
def RowBefore (a b : Int64 × CardRow) : Prop :=
  titleLe a.2.title b.2.title ∧ (titleLe b.2.title a.2.title → a.1 ≤ b.1)

instance : DecidableRel RowBefore := fun _ _ => inferInstanceAs (Decidable (_ ∧ (_ → _)))

theorem rowBefore_trans {a b c : Int64 × CardRow} (hab : RowBefore a b) (hbc : RowBefore b c) :
    RowBefore a c := by
  refine ⟨titleLe_trans hab.1 hbc.1, ?_⟩
  intro hca
  have hba : titleLe b.2.title a.2.title := titleLe_trans hbc.1 hca
  have hcb : titleLe c.2.title b.2.title := titleLe_trans hca hab.1
  exact Int64.le_trans (hab.2 hba) (hbc.2 hcb)

theorem rowBefore_total (a b : Int64 × CardRow) : RowBefore a b ∨ RowBefore b a := by
  have htitle := titleLe_total a.2.title b.2.title
  rw [Bool.or_eq_true] at htitle
  by_cases hab : titleLe a.2.title b.2.title
  · by_cases hba : titleLe b.2.title a.2.title
    · rcases Int64.le_total a.1 b.1 with h | h
      · exact Or.inl ⟨hab, fun _ => h⟩
      · exact Or.inr ⟨hba, fun _ => h⟩
    · exact Or.inl ⟨hab, fun h => absurd h hba⟩
  · rcases htitle with h | h
    · exact absurd h hab
    · exact Or.inr ⟨h, fun h => absurd h hab⟩

instance : IsTrans (Int64 × CardRow) RowBefore := ⟨fun _ _ _ => rowBefore_trans⟩

instance : Std.Total RowBefore := ⟨rowBefore_total⟩

def TitleOrder.byID : TitleOrder where
  select table := table.rows.insertionSort RowBefore
  perm table := List.perm_insertionSort RowBefore table.rows
  sorted table := (List.pairwise_insertionSort RowBefore table.rows).imp fun h => h.1

theorem TitleOrder.byID_fixed : TitleOrder.byID.Fixed := by
  refine ⟨fun a b => RowBefore a b ∧ (a.1 = b.1 → a = b), ?_, ?_⟩
  · intro a b hab hba
    apply hab.2
    exact Int64.le_antisymm (hab.1.2 hba.1.1) (hba.1.2 hab.1.1)
  · intro table
    have hsorted := List.pairwise_insertionSort RowBefore table.rows
    apply hsorted.imp_of_mem
    intro a b ha hb hab
    refine ⟨hab, ?_⟩
    intro heq
    rw [List.mem_insertionSort] at ha hb
    exact List.inj_on_of_nodup_map table.distinct ha hb heq

/-! ## One removal -/

section Removal

variable {toLower : Text → Text} {order : TitleOrder} {table : CardsTable} {Query : Text}

def foundIDs (toLower : Text → Text) (order : TitleOrder) (table : CardsTable) (Query : Text) :
    List Int32 :=
  ((found toLower order table Query).map readRow).map (·.id)

theorem found_delete (hfixed : order.Fixed) (ID : Int64) :
    found toLower order (table.delete ID) Query =
      (found toLower order table Query).filter (·.1 ≠ ID) := by
  simp only [found, hfixed.select_delete, List.filter_filter, Bool.and_comm]

def IDsInRange (table : CardsTable) : Prop := ∀ row ∈ table.rows, InIntRange row.1

theorem IDsInRange.found (h : IDsInRange table) :
    ∀ row ∈ found toLower order table Query, InIntRange row.1 :=
  fun row hrow => h row (mem_found_iff.mp hrow).1

theorem IDsInRange.nodup (h : IDsInRange table) : (foundIDs toLower order table Query).Nodup :=
  ids_nodup (keys_nodup_of_found toLower order table Query) h.found

theorem IDsInRange.delete (h : IDsInRange table) (ID : Int64) : IDsInRange (table.delete ID) :=
  fun row hrow => h row (List.mem_of_mem_filter hrow)

theorem toInt64_injective : Function.Injective Int32.toInt64 := by
  intro a b h
  rw [← Int32.toInt_inj, ← Int32.toInt_toInt64 a, h, Int32.toInt_toInt64]

/-- Taking one item away is what a search after the deletion shows. -/
theorem foundIDs_delete (hfixed : order.Fixed) (h : IDsInRange table) (CardID : Int32) :
    foundIDs toLower order (table.delete CardID.toInt64) Query =
      (foundIDs toLower order table Query).erase CardID := by
  rw [h.nodup.erase_eq_filter, foundIDs, foundIDs, found_delete hfixed, List.map_map, List.map_map,
    List.filter_map]
  congr 1
  apply List.filter_congr
  intro row hrow
  have hID : (getInt row.1).toInt64 = row.1 := getInt_toInt64_iff.mpr (h.found row hrow)
  have heq : row.1 = CardID.toInt64 ↔ getInt row.1 = CardID := by
    constructor
    · intro heq
      exact toInt64_injective (hID.trans heq)
    · intro heq
      rw [← hID, heq]
  rw [Bool.eq_iff_iff]
  simp [heq, readRow]

end Removal

/-! ## Right clicks -/

namespace Windows

variable (toLower : Text → Text) (order : TitleOrder) (className : String)

structure RightClick where
  CardID : Int32
  env : Environment

/-- A right click on an item of the scrollbox of this tab. -/
def rightClick (tab : TabId) (s : Windows) (click : RightClick) : Except Exception Windows :=
  step toLower order className s (.clickCard tab click.CardID .right tab click.env)

/-- The scrollbox of the tab shows the IDs that a search for `Query` returns now. -/
def Shows (tab : TabId) (Query : StdString) (s : Windows) : Prop :=
  ∃ cur results, s.tabs tab = some (.cardSearch cur) ∧
    searchCards toLower order s.table Query = some results ∧ cur.items = results.map (·.id)

/-- If the clicked card is displayed then its removal does not fail. -/
def Removes (tab : TabId) (s : Windows) (click : RightClick) : Prop :=
  ∀ cur, s.tabs tab = some (.cardSearch cur) → click.CardID ∈ cur.items → ¬ click.env.Fails

/-- The tab is a search over a table whose IDs are in the range of an `int`. -/
def Searching (tab : TabId) (s : Windows) : Prop :=
  (∃ cur, s.tabs tab = some (.cardSearch cur)) ∧ IDsInRange s.table

variable {toLower order className}

theorem shows_iff {tab : TabId} {Query : StdString} {s : Windows} {cur : CardSearch}
    (htab : s.tabs tab = some (.cardSearch cur)) :
    Shows toLower order tab Query s ↔ cur.items = foundIDs toLower order s.table Query.bytes := by
  simp only [Shows, htab, searchCards_eq, Option.some.injEq, Tab.cardSearch.injEq, foundIDs]
  constructor
  · rintro ⟨cur', results, rfl, rfl, hitems⟩
    exact hitems
  · intro hitems
    exact ⟨cur, _, rfl, rfl, hitems⟩

theorem removeCard_table_of_fails {env : Environment} {table : CardsTable} {Index : Int32}
    (henv : env.Fails) : (removeCard env table Index).table = table := by
  rcases raised_cases env.prepareError with ⟨-, why, hprepare⟩ | ⟨hsome, hprepare⟩
  · simp only [removeCard, execDelete, hprepare, bind, Except.bind]
  · rcases raised_cases env.stepError with ⟨-, why, hstep⟩ | ⟨hsome', -⟩
    · simp only [removeCard, execDelete, hprepare, hstep, bind, Except.bind]
    · rcases henv with h | h
      · exact absurd h hsome
      · exact absurd h hsome'

theorem rightClick_spec (hfixed : order.Fixed) (tab : TabId) (Query : StdString) (s : Windows)
    (click : RightClick) (hs : Searching tab s) :
    ∃ t, rightClick toLower order className tab s click = .ok t ∧ Searching tab t ∧
      (Shows toLower order tab Query s →
        (Shows toLower order tab Query t ↔ Removes tab s click)) := by
  obtain ⟨⟨cur, htab⟩, hrange⟩ := hs
  by_cases hmem : click.CardID ∈ cur.items
  · let t := removeClicked s tab cur click.CardID click.env
    have hstep : rightClick toLower order className tab s click = .ok t := by
      simp only [rightClick, step, htab, if_pos hmem, t]
    have htab' : t.tabs tab = some (.cardSearch (removeCardVisual cur click.CardID)) := by
      simp [t, removeClicked, setTab]
    have htable : t.table = (removeCard click.env s.table click.CardID).table := rfl
    have hremoves : Removes tab s click ↔ ¬ click.env.Fails := by
      simp [Removes, htab, hmem]
    rw [hremoves]
    by_cases hfails : click.env.Fails
    · rw [removeCard_table_of_fails hfails] at htable
      refine ⟨t, hstep, ⟨⟨_, htab'⟩, htable ▸ hrange⟩, ?_⟩
      -- the item is gone and the row is still found
      intro hshows
      rw [shows_iff htab] at hshows
      rw [shows_iff htab', htable, ← hshows]
      refine iff_of_false ?_ (not_not_intro hfails)
      intro heq
      have hlength := congrArg List.length heq
      have hpos := List.length_pos_of_mem hmem
      rw [removeCardVisual, List.length_erase_of_mem hmem] at hlength
      omega
    · rw [removeCard_table hfails] at htable
      refine ⟨t, hstep, ⟨⟨_, htab'⟩, htable ▸ hrange.delete _⟩, ?_⟩
      intro hshows
      rw [shows_iff htab] at hshows
      rw [shows_iff htab', htable, foundIDs_delete hfixed hrange, ← hshows]
      exact iff_of_true rfl hfails
  · refine ⟨s, ?_, ⟨⟨cur, htab⟩, hrange⟩, ?_⟩
    · simp only [rightClick, step, htab, if_neg hmem]
    · intro hshows
      refine iff_of_true hshows ?_
      intro cur' htab' hmem'
      rw [htab] at htab'
      cases htab'
      exact absurd hmem' hmem

/-- From a scrollbox just filled by a search, right clicks keep it equal to a fresh search
exactly as long as no removal of a displayed card fails. -/
theorem run_shows_iff (toLower : Text → Text) (order : TitleOrder) (className : String)
    (hfixed : order.Fixed) (table : CardsTable) (hrange : IDsInRange table) (tab : TabId)
    (Query : StdString) (clicks : List RightClick) :
    ∃ s, Runs.run (step toLower order className) (start table)
        [.openSearch tab, .typeSearch tab Query] = .ok s ∧
      (Runs.Along (rightClick toLower order className tab) (Shows toLower order tab Query) s clicks ↔
        Runs.EveryStep (rightClick toLower order className tab) (Removes tab) s clicks) := by
  let filled (text : StdString) : CardSearch :=
    ⟨text, foundIDs toLower order table text.bytes⟩
  let opened : Windows := (start table).setTab tab (some (.cardSearch (filled ⟨[], by decide⟩)))
  let s : Windows := opened.setTab tab (some (.cardSearch (filled Query)))
  have hopen : step toLower order className (start table) (.openSearch tab) = .ok opened := by
    simp only [step, search_ok]
    rfl
  have htype : step toLower order className opened (.typeSearch tab Query) = .ok s := by
    simp [step, search_ok, searched, opened, s, setTab, start, filled, foundIDs, bind, Except.bind]
  refine ⟨s, ?_, ?_⟩
  · rw [Runs.run_cons_ok _ hopen, Runs.run_cons_ok _ htype, Runs.run_nil]
  · have htab : s.tabs tab = some (.cardSearch (filled Query)) := by simp [s, setTab]
    exact Runs.along_iff_everyStep _ (rightClick_spec hfixed tab Query) ⟨⟨_, htab⟩, hrange⟩
      ((shows_iff htab).mpr rfl) clicks

theorem fizz_within : ([70, 105, 122, 122] : Text).length ≤ maxLength := by decide

/-- Two cards have the same title, and a third does not match `fizz`. -/
def twinTable : CardsTable :=
  ⟨[(2, ⟨some ⟨[70, 105, 122, 122], fizz_within⟩, none⟩),
    (1, ⟨some ⟨[70, 105, 122, 122], fizz_within⟩, none⟩),
    (3, ⟨some ⟨[66, 117, 122, 122], by decide⟩, none⟩)], by decide⟩

def fizzQuery : StdString := ⟨[102, 105, 122, 122], by decide⟩

/-- A click on card 1 while the database is locked. -/
def lockedClick : RightClick := ⟨1, { stepError := some "database is locked" }⟩

theorem fizz_shows_iff : ∃ s,
    Runs.run (step asciiLower TitleOrder.byID "card_search") (start twinTable)
        [.openSearch 0, .typeSearch 0 fizzQuery] = .ok s ∧
      (Runs.Along (rightClick asciiLower TitleOrder.byID "card_search" 0)
          (Shows asciiLower TitleOrder.byID 0 fizzQuery) s [⟨2, {}⟩, lockedClick] ↔
        Runs.EveryStep (rightClick asciiLower TitleOrder.byID "card_search" 0) (Removes 0) s
          [⟨2, {}⟩, lockedClick]) :=
  run_shows_iff asciiLower TitleOrder.byID "card_search" TitleOrder.byID_fixed twinTable
    (by simp only [IDsInRange]; decide) 0 fizzQuery [⟨2, {}⟩, lockedClick]

/-- The scrollbox is empty and a search still finds the card. -/
theorem locked_click_hides_card :
    ∃ s t, Runs.run (step asciiLower TitleOrder.byID "card_search") (start fizzTable)
        [.openSearch 0, .typeSearch 0 ⟨[], by decide⟩] = .ok s ∧
      rightClick asciiLower TitleOrder.byID "card_search" 0 s lockedClick = .ok t ∧
      Shows asciiLower TitleOrder.byID 0 ⟨[], by decide⟩ s ∧
      ¬ Shows asciiLower TitleOrder.byID 0 ⟨[], by decide⟩ t := by
  refine ⟨_, _, rfl, rfl, ⟨_, _, rfl, rfl, rfl⟩, ?_⟩
  rintro ⟨cur, results, htab, hsearch, hitems⟩
  cases htab
  cases hsearch
  exact absurd hitems (by decide)

end Windows

end Unotu.Cards
