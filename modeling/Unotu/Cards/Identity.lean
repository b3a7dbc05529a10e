import Unotu.Cards.RoundTrip
import Mathlib.Algebra.Group.Int.Defs

/-!
# Which row a displayed card denotes

A search reads the 64-bit IDs of the rows into an `int`, and a card is read, replaced and
removed by that `int`. A displayed card denotes the row it was read from exactly when the
ID of the row is in the range of an `int`.
-/

set_option autoImplicit false

namespace Unotu.Cards

variable {env : Environment} {table : CardsTable}

def InIntRange (ID : Int64) : Prop := -2 ^ 31 ≤ ID.toInt ∧ ID.toInt < 2 ^ 31

instance (ID : Int64) : Decidable (InIntRange ID) := inferInstanceAs (Decidable (_ ∧ _))

theorem getInt_toInt64_iff {ID : Int64} : (getInt ID).toInt64 = ID ↔ InIntRange ID := by
  rw [← Int64.toInt_inj, Int32.toInt_toInt64, getInt, InIntRange]
  constructor
  · intro heq
    rw [← heq]
    exact ⟨Int32.le_toInt _, Int32.toInt_lt _⟩
  · rintro ⟨hle, hlt⟩
    rw [Int64.toInt_toInt32]
    exact Int.bmod_eq_of_le (by omega) (by omega)

theorem getInt_inj {a b : Int64} (ha : InIntRange a) (hb : InIntRange b) (h : getInt a = getInt b) :
    a = b := by
  rw [← getInt_toInt64_iff.mpr ha, ← getInt_toInt64_iff.mpr hb, h]

/-! ## The calls of a displayed card -/

/-- What is in the rows of the other IDs. -/
def OthersUnchanged (before after : CardsTable) (ID : Int64) : Prop :=
  ∀ other, other ≠ ID → ∀ row, after.Holds other row ↔ before.Holds other row

/-- The card displayed for a row reads, replaces and removes this row and no other. -/
structure Denotes (table : CardsTable) (row : Int64 × CardRow) : Prop where
  read : ∀ env : Environment, ¬ env.Fails → getCard env table (readRow row).id = .ok (readRow row)
  replaced : ∀ (env : Environment) (card : Card) (new : CardRow),
    boundRow env card.title card.content = .ok new →
      (replaceCard env table ⟨card, (readRow row).id⟩).table.Holds row.1 new ∧
        OthersUnchanged table (replaceCard env table ⟨card, (readRow row).id⟩).table row.1
  removed : ∀ env : Environment, ¬ env.Fails →
    ¬ (removeCard env table (readRow row).id).table.Has row.1 ∧
      OthersUnchanged table (removeCard env table (readRow row).id).table row.1

theorem removeCard_table {Index : Int32} (henv : ¬ env.Fails) :
    (removeCard env table Index).table = table.delete Index.toInt64 := by
  obtain ⟨hprepare, hstep⟩ := raised_ok henv
  simp only [removeCard, execDelete, hprepare, hstep, bind, Except.bind]

theorem replaceCard_table {card : Card} {new : CardRow} (ID : Int32)
    (hbound : boundRow env card.title card.content = .ok new) :
    (replaceCard env table ⟨card, ID⟩).table = table.update ID.toInt64 new := by
  simp only [replaceCard, execUpdate, hbound, bind, Except.bind]

theorem denotes_iff {row : Int64 × CardRow} (hrow : table.Holds row.1 row.2) :
    Denotes table row ↔ InIntRange row.1 := by
  rw [← getInt_toInt64_iff]
  have hid : (readRow row).id = getInt row.1 := rfl
  constructor
  · intro h
    obtain ⟨hgone, -⟩ := h.removed {} not_fails_default
    rw [removeCard_table not_fails_default, KeyedTable.has_delete_iff, hid] at hgone
    by_contra hne
    exact hgone ⟨fun heq => hne heq.symm, hrow.has⟩
  · intro hID
    refine ⟨?_, ?_, ?_⟩
    · intro env henv
      have hholds : table.Holds (getInt row.1).toInt64 row.2 := by rwa [hID]
      exact getCard_of_holds henv hholds
    · intro env card new hbound
      rw [replaceCard_table _ hbound, hid, hID]
      refine ⟨KeyedTable.holds_update_iff.mpr (Or.inl ⟨rfl, rfl, hrow.has⟩), ?_⟩
      intro other hne r
      rw [KeyedTable.holds_update_iff]
      simp [hne]
    · intro env henv
      rw [removeCard_table henv, hid, hID]
      refine ⟨fun hhas => (KeyedTable.has_delete_iff.mp hhas).1 rfl, ?_⟩
      intro other hne r
      rw [KeyedTable.holds_delete_iff]
      simp [hne]

/-! ## The cards of a search -/

/-- The cards that a search returns have distinct IDs and denote the rows they were read
from. -/
def Identified (toLower : Text → Text) (order : TitleOrder) (table : CardsTable) (Query : StdString) :
    Prop :=
  ∃ selected : List (Int64 × CardRow),
    searchCards toLower order table Query = some (selected.map readRow) ∧
      (∀ row, row ∈ selected ↔ row ∈ table.rows ∧ Matches toLower Query.bytes (readRow row).toCard) ∧
      ((selected.map readRow).map (·.id)).Nodup ∧
      ∀ row ∈ selected, Denotes table row

theorem keys_nodup_of_found (toLower : Text → Text) (order : TitleOrder) (table : CardsTable)
    (Query : Text) : ((found toLower order table Query).map Prod.fst).Nodup := by
  have hkeys : ((order.select table).map Prod.fst).Nodup :=
    ((order.perm table).map Prod.fst).nodup_iff.mpr table.distinct
  exact hkeys.sublist (List.filter_sublist.map _)

theorem ids_nodup {rows : List (Int64 × CardRow)} (hkeys : (rows.map Prod.fst).Nodup)
    (hrange : ∀ row ∈ rows, InIntRange row.1) : ((rows.map readRow).map (·.id)).Nodup := by
  rw [List.map_map]
  have hids : rows.map ((·.id) ∘ readRow) = (rows.map Prod.fst).map getInt := by
    rw [List.map_map]
    rfl
  rw [hids]
  apply List.Nodup.map_on ?_ hkeys
  intro a ha b hb heq
  obtain ⟨row, hrow, rfl⟩ := List.mem_map.mp ha
  obtain ⟨other, hother, rfl⟩ := List.mem_map.mp hb
  exact getInt_inj (hrange row hrow) (hrange other hother) heq

/-- The cards of a search are identified exactly when the IDs of the matching rows are in
the range of an `int`. -/
theorem identified_iff (toLower : Text → Text) (order : TitleOrder) (table : CardsTable)
    (Query : StdString) :
    Identified toLower order table Query ↔
      ∀ row ∈ table.rows, Matches toLower Query.bytes (readRow row).toCard → InIntRange row.1 := by
  constructor
  · rintro ⟨selected, -, hmem, -, hdenotes⟩ row hrow hmatch
    exact (denotes_iff hrow).mp (hdenotes row ((hmem row).mpr ⟨hrow, hmatch⟩))
  · intro hrange
    have hfound : ∀ row ∈ found toLower order table Query.bytes, InIntRange row.1 := by
      intro row hrow
      obtain ⟨hmem, hmatch⟩ := mem_found_iff.mp hrow
      exact hrange row hmem hmatch
    refine ⟨found toLower order table Query.bytes, searchCards_eq Query, fun _ => mem_found_iff, ?_, ?_⟩
    · exact ids_nodup (keys_nodup_of_found toLower order table Query.bytes) hfound
    · intro row hrow
      exact (denotes_iff (mem_found_iff.mp hrow).1).mpr (hfound row hrow)

/-- Two rows whose IDs differ by 2^32. -/
def collidingTable : CardsTable :=
  ⟨[(1, ⟨some ⟨[65], by decide⟩, none⟩), (4294967297, ⟨some ⟨[66], by decide⟩, none⟩)], by decide⟩

/-- Both rows are displayed under the ID 1, and removing the second card deletes the first. -/
theorem colliding_not_identified :
    ¬ Identified asciiLower TitleOrder.stable collidingTable ⟨[], by decide⟩ ∧
      (searchCards asciiLower TitleOrder.stable collidingTable ⟨[], by decide⟩).map
        (List.map (·.id)) = some [1, 1] ∧
      (removeCard {} collidingTable (getInt 4294967297)).table.keys = [4294967297] := by
  refine ⟨?_, by decide, by decide⟩
  intro h
  obtain ⟨selected, -, hmem, -, hdenotes⟩ := h
  let row : Int64 × CardRow := (4294967297, ⟨some ⟨[66], by decide⟩, none⟩)
  have hrow : collidingTable.Holds row.1 row.2 :=
    List.mem_cons_of_mem _ (List.mem_singleton_self _)
  have hmatch : row ∈ selected := (hmem row).mpr ⟨hrow, by decide⟩
  have hrange : InIntRange row.1 := (denotes_iff hrow).mp (hdenotes row hmatch)
  exact absurd hrange (by decide)

end Unotu.Cards
