import Unotu.Cards.Saving

/-!
# Texts through the database

Texts are bound with their size and read back as C strings. What `AddCard` and
`ReplaceCard` store is read back in full exactly when no null byte occurs in it, and
confirming an unchanged edit rewrites a row that held NULL or a null byte.
-/

set_option autoImplicit false

namespace Unotu.Cards

variable {env : Environment} {table : CardsTable} {card : Card}

theorem cString_eq_self_iff {t : Text} : cString t = t ↔ 0 ∉ t := by
  rw [cString, List.takeWhile_eq_self_iff]
  constructor
  · intro h hmem
    simpa using h 0 hmem
  · intro h c hc
    rw [decide_eq_true_iff]
    intro hzero
    exact h (hzero ▸ hc)

def Card.NulFree (card : Card) : Prop := 0 ∉ card.title ∧ 0 ∉ card.content

/-- Both texts are shorter than what the database accepts. -/
def Card.WithinLimit (card : Card) : Prop :=
  card.title.length ≤ maxLength ∧ card.content.length ≤ maxLength

theorem Card.WithinLimit.sizesFit (h : card.WithinLimit) : SizesFit card.title card.content := by
  obtain ⟨ht, hc⟩ := h
  rw [maxLength] at ht hc
  exact ⟨by omega, by omega⟩

theorem Card.WithinLimit.rowThrows_iff (h : card.WithinLimit) :
    RowThrows env card.title card.content ↔ env.Fails := by
  have ht : ¬ maxLength < (boundBytes card.title).length := by
    rw [boundBytes_of_lt h.sizesFit.1]
    exact Nat.not_lt.mpr h.1
  have hc : ¬ maxLength < (boundBytes card.content).length := by
    rw [boundBytes_of_lt h.sizesFit.2]
    exact Nat.not_lt.mpr h.2
  simp only [RowThrows, ht, hc, or_false]

/-! ## What a row reads as -/

/-- The card that a row reads as. -/
def rowCard (row : CardRow) : Card := ⟨getText row.title, getText row.content⟩

theorem rowCard_stored {t c : StoredText} (ht : t.bytes = card.title) (hc : c.bytes = card.content) :
    rowCard ⟨some t, some c⟩ = card ↔ card.NulFree := by
  rw [Card.NulFree, ← cString_eq_self_iff, ← cString_eq_self_iff]
  cases card
  simp only at ht hc
  subst ht hc
  simp only [rowCard, getText, Card.mk.injEq]

/-- Without an exception both the preparation and the step go through. -/
theorem raised_ok (henv : ¬ env.Fails) :
    raised env.prepareError = .ok () ∧ raised env.stepError = .ok () := by
  have hnone : ∀ e : Option Exception, ¬ e.isSome → raised e = .ok () := by
    intro e he
    rcases raised_cases e with ⟨hsome, -⟩ | ⟨-, heq⟩
    · exact absurd hsome he
    · exact heq
  exact ⟨hnone _ fun h => henv (Or.inl h), hnone _ fun h => henv (Or.inr h)⟩

theorem getCard_of_holds {ID : Int32} {row : CardRow} (henv : ¬ env.Fails)
    (hrow : table.Holds ID.toInt64 row) : getCard env table ID = .ok ⟨rowCard row, ID⟩ := by
  have hselect : table.select ID.toInt64 = some row := KeyedTable.select_eq_some_iff.mpr hrow
  obtain ⟨hprepare, hstep⟩ := raised_ok henv
  simp only [getCard, selectCard, hprepare, hstep, hselect, bind, Except.bind, rowCard]

theorem empty_size_lt : ([] : Text).length < 2 ^ 63 := by decide

theorem searchAll_eq (toLower : Text → Text) (order : TitleOrder) (table : CardsTable) :
    searchCards toLower order table ⟨[], empty_size_lt⟩ = some ((order.select table).map readRow) := by
  rw [searchCards_eq, found_of_spaces]
  simp

/-! ## The round trips -/

/-- A search for everything returns the previous cards and one new card with these texts. -/
def Added (toLower : Text → Text) (order : TitleOrder) (before after : CardsTable) (card : Card) :
    Prop :=
  ∃ previous results ID,
    searchCards toLower order before ⟨[], empty_size_lt⟩ = some previous ∧
      searchCards toLower order after ⟨[], empty_size_lt⟩ = some results ∧
      results.Perm (⟨card, ID⟩ :: previous)

/-- `GetCard` returns the card and the rows of the other IDs are unchanged. -/
def Replaced (before after : CardsTable) (card : IndexedCard) : Prop :=
  (∀ env : Environment, ¬ env.Fails → getCard env after card.id = .ok card) ∧
    ∀ ID, ID ≠ card.id.toInt64 → ∀ row, after.Holds ID row ↔ before.Holds ID row

/-- The tab of a card that was opened and confirmed without a change. -/
def EditCard.unchanged (card : IndexedCard) : EditCard := { EditCard.ofCard card with bConfirmed := true }

def Reopened (env env' : Environment) (table : CardsTable) (ID : Int32) : Prop :=
  ∀ card, getCard env table ID = .ok card →
    (destroyEditCard env' table (.unchanged card)).table = table

/-- Both columns hold a text and neither text has a null byte. -/
def CardRow.NulFree (row : CardRow) : Prop :=
  ∃ t c : StoredText, row = ⟨some t, some c⟩ ∧ 0 ∉ t.bytes ∧ 0 ∉ c.bytes

theorem eq_of_cons_perm_cons {α : Type} {a b : α} {l : List α} (h : (a :: l).Perm (b :: l)) :
    a = b := by
  have hboth : ([a] ++ l).Perm ([b] ++ l) := h
  rwa [List.perm_append_right_iff, List.singleton_perm_singleton] at hboth

theorem addCard_added_iff (toLower : Text → Text) (order : TitleOrder) (hsize : card.WithinLimit)
    (hinsert : ¬ InsertThrows env table card) :
    Added toLower order table (addCard env table card).table card ↔ card.NulFree := by
  rcases addCard_cases env table card with ⟨hthrows, -⟩ | ⟨-, t, c, hnew, heq, hfit⟩
  · exact absurd hthrows hinsert
  obtain ⟨ht, hc⟩ := hfit.mpr hsize.sizesFit
  have hrows : ((order.select (table.insert (newID env table) ⟨some t, some c⟩ hnew)).map readRow).Perm
      (⟨rowCard ⟨some t, some c⟩, getInt (newID env table)⟩ :: (order.select table).map readRow) := by
    have hselect := (order.perm (table.insert (newID env table) ⟨some t, some c⟩ hnew)).trans
      ((List.perm_append_singleton _ _).trans ((order.perm table).symm.cons _))
    exact hselect.map readRow
  simp only [Added, heq, searchAll_eq, Option.some.injEq]
  rw [← rowCard_stored ht hc]
  constructor
  · rintro ⟨previous, results, ID, rfl, rfl, hperm⟩
    exact congrArg IndexedCard.toCard (eq_of_cons_perm_cons (hrows.symm.trans hperm))
  · intro hcard
    rw [hcard] at hrows
    exact ⟨_, _, _, rfl, rfl, hrows⟩

theorem replaceCard_replaced_iff {ID : Int32} (hsize : card.WithinLimit) (hhas : table.Has ID.toInt64)
    (henv : ¬ env.Fails) :
    Replaced table (replaceCard env table ⟨card, ID⟩).table ⟨card, ID⟩ ↔ card.NulFree := by
  rcases replaceCard_cases env table ⟨card, ID⟩ with ⟨hthrows, -⟩ | ⟨-, t, c, heq, hfit⟩
  · exact absurd (hsize.rowThrows_iff.mp hthrows) henv
  obtain ⟨ht, hc⟩ := hfit.mpr hsize.sizesFit
  have hrow : (table.update ID.toInt64 ⟨some t, some c⟩).Holds ID.toInt64 ⟨some t, some c⟩ :=
    KeyedTable.holds_update_iff.mpr (Or.inl ⟨rfl, rfl, hhas⟩)
  rw [heq, Replaced, ← rowCard_stored ht hc]
  constructor
  · rintro ⟨hget, -⟩
    have hcard := hget {} (by simp [Environment.Fails])
    rw [getCard_of_holds (by simp [Environment.Fails]) hrow, Except.ok.injEq] at hcard
    exact congrArg IndexedCard.toCard hcard
  · intro hcard
    constructor
    · intro env' henv'
      rw [getCard_of_holds henv' hrow, hcard]
    · intro other hne row
      rw [KeyedTable.holds_update_iff]
      simp [hne]

theorem cString_length_le (t : Text) : (cString t).length ≤ t.length :=
  (List.takeWhile_sublist _).length_le

theorem rowCard_withinLimit (row : CardRow) : (rowCard row).WithinLimit := by
  have hle : ∀ stored : Option StoredText, (getText stored).length ≤ maxLength := by
    intro stored
    cases stored with
    | none => exact Nat.zero_le _
    | some t => exact (cString_length_le t.bytes).trans t.within
  exact ⟨hle row.title, hle row.content⟩

theorem stored_eq_iff {stored : Option StoredText} {b : StoredText} (hb : b.bytes = getText stored) :
    some b = stored ↔ ∃ t : StoredText, stored = some t ∧ 0 ∉ t.bytes := by
  cases stored with
  | none => simp
  | some t =>
    have hbytes : b = t ↔ b.bytes = t.bytes := by
      cases b
      cases t
      simp
    simp only [Option.some.injEq, hbytes, hb, getText, cString_eq_self_iff, exists_eq_left']

/-- What is read from a row and written back is the row exactly when it is free of nulls. -/
theorem row_rewritten_iff {row : CardRow} {t c : StoredText} (ht : t.bytes = (rowCard row).title)
    (hc : c.bytes = (rowCard row).content) : (⟨some t, some c⟩ : CardRow) = row ↔ row.NulFree := by
  obtain ⟨title, content⟩ := row
  rw [CardRow.mk.injEq, stored_eq_iff ht, stored_eq_iff hc, CardRow.NulFree]
  constructor
  · rintro ⟨⟨t', rfl, ht'⟩, c', rfl, hc'⟩
    exact ⟨t', c', rfl, ht', hc'⟩
  · rintro ⟨t', c', heq, ht', hc'⟩
    cases heq
    exact ⟨⟨t', rfl, ht'⟩, c', rfl, hc'⟩

theorem reopened_iff {env' : Environment} {ID : Int32} {row : CardRow}
    (hrow : table.Holds ID.toInt64 row) (henv : ¬ env.Fails) (henv' : ¬ env'.Fails) :
    Reopened env env' table ID ↔ row.NulFree := by
  have htab : ∀ card : IndexedCard, (destroyEditCard env' table (.unchanged card)).table =
      (replaceCard env' table card).table := fun card => rfl
  simp only [Reopened, getCard_of_holds henv hrow, Except.ok.injEq, forall_eq', htab]
  rcases replaceCard_cases env' table ⟨rowCard row, ID⟩ with ⟨hthrows, -⟩ | ⟨-, t, c, heq, hfit⟩
  · exact absurd ((rowCard_withinLimit row).rowThrows_iff.mp hthrows) henv'
  obtain ⟨ht, hc⟩ := hfit.mpr (rowCard_withinLimit row).sizesFit
  rw [heq, KeyedTable.update_eq_self_iff hrow, row_rewritten_iff ht hc]

/-- Where the statements do not throw, a stored card comes back as it was exactly when its
texts have no null byte, and an unchanged edit leaves the table as it was exactly when the
row held two texts without one. -/
theorem texts_survive_iff (toLower : Text → Text) (order : TitleOrder) (table : CardsTable)
    (card : Card) (hsize : card.WithinLimit) :
    (∀ env, ¬ InsertThrows env table card →
      (Added toLower order table (addCard env table card).table card ↔ card.NulFree)) ∧
    (∀ (env : Environment) (ID : Int32), ¬ env.Fails → table.Has ID.toInt64 →
      (Replaced table (replaceCard env table ⟨card, ID⟩).table ⟨card, ID⟩ ↔ card.NulFree)) ∧
    (∀ (env env' : Environment) (ID : Int32) (row : CardRow), ¬ env.Fails → ¬ env'.Fails →
      table.Holds ID.toInt64 row → (Reopened env env' table ID ↔ row.NulFree)) := by
  refine ⟨?_, ?_, ?_⟩
  · intro env hinsert
    exact addCard_added_iff toLower order hsize hinsert
  · intro env ID henv hhas
    exact replaceCard_replaced_iff hsize hhas henv
  · intro env env' ID row henv henv' hrow
    exact reopened_iff hrow henv henv'

theorem not_fails_default : ¬ ({} : Environment).Fails := by simp [Environment.Fails]

theorem not_insertThrows_default (hsize : card.WithinLimit) (hnew : ¬ table.Has (newID {} table)) :
    ¬ InsertThrows {} table card := by
  intro hfails
  rcases hfails with hthrows | htaken
  · exact not_fails_default (hsize.rowThrows_iff.mp hthrows)
  · exact hnew htaken

def hiCard : Card := ⟨[72, 105], [72, 111]⟩

theorem hiCard_survives :
    Added asciiLower TitleOrder.stable fizzTable (addCard {} fizzTable hiCard).table hiCard ∧
      Replaced fizzTable (replaceCard {} fizzTable ⟨hiCard, 1⟩).table ⟨hiCard, 1⟩ ∧
      ¬ Reopened {} {} fizzTable 1 := by
  have hsize : hiCard.WithinLimit := by simp [Card.WithinLimit, hiCard, maxLength]
  have hfree : hiCard.NulFree := by simp [Card.NulFree, hiCard]
  obtain ⟨hadd, hreplace, hreopen⟩ :=
    texts_survive_iff asciiLower TitleOrder.stable fizzTable hiCard hsize
  refine ⟨?_, ?_, ?_⟩
  · exact (hadd {} (not_insertThrows_default hsize (by decide))).mpr hfree
  · exact (hreplace {} 1 not_fails_default (by decide)).mpr hfree
  · rw [hreopen {} {} 1 _ not_fails_default not_fails_default (List.mem_singleton_self _)]
    rintro ⟨t, c, heq, -⟩
    cases heq

/-- The three bytes `A`, null, `B`. -/
def nulText : StoredText := ⟨[65, 0, 66], by decide⟩

/-- Such a text is stored, but a search returns another card, and confirming an unchanged
edit cuts the stored text. -/
theorem nul_text_is_cut :
    ¬ InsertThrows {} KeyedTable.empty ⟨nulText.bytes, []⟩ ∧
      ¬ Added asciiLower TitleOrder.stable KeyedTable.empty
        (addCard {} KeyedTable.empty ⟨nulText.bytes, []⟩).table ⟨nulText.bytes, []⟩ ∧
      ¬ Reopened {} {} (KeyedTable.empty.insert 1 ⟨some nulText, some nulText⟩ (by decide)) 1 := by
  have hsize : Card.WithinLimit ⟨nulText.bytes, []⟩ := by
    simp [Card.WithinLimit, nulText, maxLength]
  have hinsert : ¬ InsertThrows {} KeyedTable.empty ⟨nulText.bytes, []⟩ :=
    not_insertThrows_default hsize (by decide)
  refine ⟨hinsert, ?_, ?_⟩
  · rw [addCard_added_iff asciiLower TitleOrder.stable hsize hinsert]
    simp [Card.NulFree, nulText]
  · rw [reopened_iff (List.mem_singleton_self _) not_fails_default not_fails_default]
    rintro ⟨t, c, heq, ht, -⟩
    cases heq
    simp [nulText] at ht

end Unotu.Cards
