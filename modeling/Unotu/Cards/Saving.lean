import Unotu.Cards.Sessions

/-!
# Confirmed edits

What a call of `AddCard`, `ReplaceCard` or `RemoveCard` reports against what it did, and
from it when a confirmed edit is kept or its failure reported, over all interleavings of
tabs.
-/

set_option autoImplicit false

namespace Unotu.Cards

variable {env : Environment} {table : CardsTable}

/-- The row under `ID` holds exactly this title and content. -/
def HoldsText (table : CardsTable) (ID : Int64) (card : Card) : Prop :=
  ∃ t c : StoredText, table.Holds ID ⟨some t, some c⟩ ∧ t.bytes = card.title ∧ c.bytes = card.content

theorem HoldsText.has {ID : Int64} {card : Card} (h : HoldsText table ID card) : table.Has ID := by
  obtain ⟨t, c, hrow, -⟩ := h
  exact hrow.has

theorem HoldsText.sizesFit {ID : Int64} {card : Card} (h : HoldsText table ID card) :
    SizesFit card.title card.content := by
  obtain ⟨t, c, -, ht, hc⟩ := h
  have hle := t.within
  have hle' := c.within
  rw [ht, maxLength] at hle
  rw [hc, maxLength] at hle'
  exact ⟨by omega, by omega⟩

/-- An insertion throws: its texts cannot be stored or there is no ID left for it. -/
def InsertThrows (env : Environment) (table : CardsTable) (card : Card) : Prop :=
  RowThrows env card.title card.content ∨ table.Has (newID env table)

theorem addCard_cases (env : Environment) (table : CardsTable) (card : Card) :
    InsertThrows env table card ∧ (∃ why, addCard env table card =
        ⟨table, (), ["New card insertion failed, reason: " ++ why ++ "\n"]⟩) ∨
      ¬ InsertThrows env table card ∧ ∃ t c h, addCard env table card =
          ⟨table.insert (newID env table) ⟨some t, some c⟩ h, (), []⟩ ∧
        (t.bytes = card.title ∧ c.bytes = card.content ↔ SizesFit card.title card.content) := by
  unfold InsertThrows addCard execInsert
  rcases boundRow_cases env card.title card.content with ⟨hthrows, why, hrow⟩ | ⟨hfine, t, c, hrow, hfit⟩
  · exact Or.inl ⟨Or.inl hthrows, why, by rw [hrow]; rfl⟩
  · by_cases htaken : table.Has (newID env table)
    · refine Or.inl ⟨Or.inr htaken, "database or disk is full", ?_⟩
      rw [hrow]
      simp only [bind, Except.bind, dif_pos htaken]
    · refine Or.inr ⟨?_, t, c, htaken, ?_, hfit⟩
      · intro hor
        rcases hor with h | h
        · exact hfine h
        · exact htaken h
      · rw [hrow]
        simp only [bind, Except.bind, dif_neg htaken]

theorem replaceCard_cases (env : Environment) (table : CardsTable) (card : IndexedCard) :
    RowThrows env card.title card.content ∧ (∃ why, replaceCard env table card =
        ⟨table, false,
          ["Replacement of card ID " ++ showInt card.id ++ " failed: " ++ why ++ "\n"]⟩) ∨
      ¬ RowThrows env card.title card.content ∧ ∃ t c, replaceCard env table card =
          ⟨table.update card.id.toInt64 ⟨some t, some c⟩, true, []⟩ ∧
        (t.bytes = card.title ∧ c.bytes = card.content ↔ SizesFit card.title card.content) := by
  unfold replaceCard execUpdate
  rcases boundRow_cases env card.title card.content with ⟨hthrows, why, hrow⟩ | ⟨hfine, t, c, hrow, hfit⟩
  · exact Or.inl ⟨hthrows, why, by rw [hrow]; rfl⟩
  · exact Or.inr ⟨hfine, t, c, by rw [hrow]; rfl, hfit⟩

theorem removeCard_cases (env : Environment) (table : CardsTable) (Index : Int32) :
    (∃ why, removeCard env table Index =
        ⟨table, false, ["Removal of card ID " ++ showInt Index ++ " failed: " ++ why ++ "\n"]⟩) ∨
      removeCard env table Index =
        ⟨table.delete Index.toInt64, decide (table.matching Index.toInt64 > 0), []⟩ := by
  unfold removeCard execDelete
  rcases raised_cases env.prepareError with ⟨-, why, hprepare⟩ | ⟨-, hprepare⟩
  · exact Or.inl ⟨why, by rw [hprepare]; rfl⟩
  · rcases raised_cases env.stepError with ⟨-, why, hstep⟩ | ⟨-, hstep⟩
    · exact Or.inl ⟨why, by rw [hprepare, hstep]; rfl⟩
    · exact Or.inr (by rw [hprepare, hstep]; rfl)

theorem holdsText_update_iff {ID : Int64} {t c : StoredText} {card : Card} :
    HoldsText (table.update ID ⟨some t, some c⟩) ID card ↔
      table.Has ID ∧ t.bytes = card.title ∧ c.bytes = card.content := by
  constructor
  · rintro ⟨t', c', hrow, ht, hc⟩
    rcases KeyedTable.holds_update_iff.mp hrow with ⟨-, heq, hhas⟩ | ⟨hne, -⟩
    · cases heq
      exact ⟨hhas, ht, hc⟩
    · exact absurd rfl hne
  · rintro ⟨hhas, ht, hc⟩
    exact ⟨t, c, KeyedTable.holds_update_iff.mpr (Or.inl ⟨rfl, rfl, hhas⟩), ht, hc⟩

/-! ## The laws of the result flags -/

/-- `true` says that the row existed and now holds the new text. -/
def ReplaceLaw (env : Environment) (before after : CardsTable) (card : IndexedCard) : Prop :=
  (replaceCard env before card).result = true ↔
    before.Has card.id.toInt64 ∧ HoldsText after card.id.toInt64 card.toCard

/-- `true` says that the row existed and is now gone. -/
def RemoveLaw (env : Environment) (before after : CardsTable) (Index : Int32) : Prop :=
  (removeCard env before Index).result = true ↔
    before.Has Index.toInt64 ∧ ¬ after.Has Index.toInt64

/-- The condition of `ReplaceLaw`: a statement that throws does not meet a row that has the
new text already, and one that does not throw meets a row and texts of a proper size. -/
structure ReplaceMeets (env : Environment) (table : CardsTable) (card : IndexedCard) : Prop where
  thrown : RowThrows env card.title card.content → ¬ HoldsText table card.id.toInt64 card.toCard
  done : ¬ RowThrows env card.title card.content →
    table.Has card.id.toInt64 ∧ SizesFit card.title card.content

theorem replaceLaw_iff (card : IndexedCard) :
    ReplaceLaw env table (replaceCard env table card).table card ↔ ReplaceMeets env table card := by
  rcases replaceCard_cases env table card with ⟨hthrows, why, heq⟩ | ⟨hfine, t, c, heq, hfit⟩
  · simp only [ReplaceLaw, heq, Bool.false_eq_true, false_iff, not_and]
    constructor
    · intro h
      exact ⟨fun _ hholds => h hholds.has hholds, fun hfine => absurd hthrows hfine⟩
    · intro h _
      exact h.thrown hthrows
  · simp only [ReplaceLaw, heq, true_iff, holdsText_update_iff]
    constructor
    · rintro ⟨hhas, -, htexts⟩
      exact ⟨fun hthrows => absurd hthrows hfine, fun _ => ⟨hhas, hfit.mp htexts⟩⟩
    · intro h
      obtain ⟨hhas, hsizes⟩ := h.done hfine
      exact ⟨hhas, hhas, hfit.mpr hsizes⟩

theorem removeCard_law (env : Environment) (table : CardsTable) (Index : Int32) :
    RemoveLaw env table (removeCard env table Index).table Index := by
  rcases removeCard_cases env table Index with ⟨why, heq⟩ | heq
  · simp [RemoveLaw, heq]
  · simp [RemoveLaw, heq, KeyedTable.matching_pos_iff, KeyedTable.has_delete_iff]

/-! ## SaveCard -/

/-- The table holds the confirmed text, under the edited ID if the card is not new. -/
def Saved (table : CardsTable) (tab : EditCard) : Prop :=
  if tab.bNewCard then
    ∃ ID, HoldsText table ID tab.card.toCard
  else
    HoldsText table tab.cardID.toInt64 tab.card.toCard

def Reported (lines : List String) (tab : EditCard) : Prop :=
  if tab.bNewCard then
    ∃ why, "New card insertion failed, reason: " ++ why ++ "\n" ∈ lines
  else
    "Failed to replace card ID " ++ showInt tab.cardID ++ "!\n" ∈ lines

def SaveMeets (env : Environment) (table : CardsTable) (tab : EditCard) : Prop :=
  if tab.bNewCard then
    InsertThrows env table tab.card.toCard ∨ SizesFit tab.cardTitle tab.cardContent
  else
    ReplaceMeets env table tab.card

theorem saveCard_new_iff {tab : EditCard} (hnew : tab.bNewCard = true) :
    Saved (saveCard env table tab).table tab ∨ Reported (saveCard env table tab).printed tab ↔
      SaveMeets env table tab := by
  simp only [Saved, Reported, SaveMeets, saveCard, hnew, if_true]
  rcases addCard_cases env table tab.card.toCard with ⟨hthrows, why, heq⟩ | ⟨hfine, t, c, h, heq, hfit⟩
  · simp only [heq, hthrows, true_or, iff_true]
    exact Or.inr ⟨why, List.mem_singleton_self _⟩
  · simp only [heq, hfine, false_or, List.not_mem_nil, exists_false, or_false]
    constructor
    · rintro ⟨ID, hholds⟩
      exact hholds.sizesFit
    · intro hsizes
      exact ⟨_, t, c, (KeyedTable.holds_insert_iff h).mpr (Or.inr ⟨rfl, rfl⟩), hfit.mpr hsizes⟩

theorem saveCard_existing_iff {tab : EditCard} (hold : tab.bNewCard = false) :
    (Saved (saveCard env table tab).table tab ∨ Reported (saveCard env table tab).printed tab) ∧
        ReplaceLaw env table (saveCard env table tab).table tab.card ↔
      SaveMeets env table tab := by
  have htable : (saveCard env table tab).table = (replaceCard env table tab.card).table := by
    simp [saveCard, hold]
  simp only [SaveMeets, hold, Bool.false_eq_true, if_false, htable, replaceLaw_iff, and_iff_right_iff_imp]
  intro hmeets
  rcases replaceCard_cases env table tab.card with ⟨-, why, heq⟩ | ⟨hfine, t, c, heq, hfit⟩
  · apply Or.inr
    simp only [Reported, saveCard, hold, heq, Bool.false_eq_true, if_false, Bool.not_false, if_true]
    exact List.mem_append_right _ (List.mem_singleton_self _)
  · apply Or.inl
    obtain ⟨hhas, hsizes⟩ := hmeets.done hfine
    simp only [Saved, hold, heq, Bool.false_eq_true, if_false]
    exact holdsText_update_iff.mpr ⟨hhas, hfit.mpr hsizes⟩

/-! ## Runs of all tabs -/

namespace Windows

/-- What has to hold of the state after an action: a confirmed edit whose tab is destroyed
is kept or its failure is printed, and the result flags are right. -/
def LawfulAfter (s t : Windows) : Action → Prop
  | .destroy tab env => ∀ cur, s.tabs tab = some (.editCard cur) → cur.bConfirmed = true →
      (Saved t.table cur ∨ ∃ lines, t.printed = s.printed ++ lines ∧ Reported lines cur) ∧
        (cur.bNewCard = false → ReplaceLaw env s.table t.table cur.card)
  | .replaceCard card env => ReplaceLaw env s.table t.table card
  | .removeCard Index env => RemoveLaw env s.table t.table Index
  | .clickCard tab CardID .right _ env => ∀ cur, s.tabs tab = some (.cardSearch cur) →
      CardID ∈ cur.items → RemoveLaw env s.table t.table CardID
  | _ => True

def Meets (s : Windows) : Action → Prop
  | .destroy tab env => ∀ cur, s.tabs tab = some (.editCard cur) → cur.bConfirmed = true →
      SaveMeets env s.table cur
  | .replaceCard card env => ReplaceMeets env s.table card
  | _ => True

variable (toLower : Text → Text) (order : TitleOrder) (className : String)

def Lawful (s : Windows) (a : Action) : Prop :=
  ∀ t, step toLower order className s a = .ok t → LawfulAfter s t a

variable {toLower order className}

theorem finish_reported_iff {s : Windows} {done : Done Unit} {cur : EditCard} :
    (∃ lines, (s.finish done).printed = s.printed ++ lines ∧ Reported lines cur) ↔
      Reported done.printed cur := by
  constructor
  · rintro ⟨lines, heq, h⟩
    rwa [List.append_cancel_left heq]
  · intro h
    exact ⟨done.printed, rfl, h⟩

theorem lawful_destroy_iff (s : Windows) (tab : TabId) (env : Environment) :
    Lawful toLower order className s (.destroy tab env) ↔ Meets s (.destroy tab env) := by
  cases htab : s.tabs tab with
  | none => simp [Lawful, LawfulAfter, Meets, htab]
  | some contents =>
    cases contents with
    | cardSearch cur => simp [Lawful, LawfulAfter, Meets, htab]
    | editCard cur =>
      cases hconf : cur.bConfirmed with
      | false => simp [Lawful, LawfulAfter, Meets, htab, hconf]
      | true =>
        have hsave : Saved (s.finish (saveCard env s.table cur)).table cur ∨
              (∃ lines, (s.finish (saveCard env s.table cur)).printed = s.printed ++ lines ∧
                Reported lines cur) ↔
            Saved (saveCard env s.table cur).table cur ∨
              Reported (saveCard env s.table cur).printed cur :=
          or_congr Iff.rfl finish_reported_iff
        simp only [Lawful, LawfulAfter, Meets, step, htab, destroyEditCard, hconf, if_true,
          Except.ok.injEq, forall_eq', Option.some.injEq, Tab.editCard.injEq, forall_const]
        cases hnew : cur.bNewCard with
        | true =>
          simp only [Bool.true_eq_false, false_implies, and_true]
          exact hsave.trans (saveCard_new_iff hnew)
        | false =>
          simp only [forall_const]
          exact (and_congr hsave Iff.rfl).trans (saveCard_existing_iff hnew)

theorem lawful_iff_meets (s : Windows) (a : Action) :
    Lawful toLower order className s a ↔ Meets s a := by
  cases a with
  | destroy tab env => exact lawful_destroy_iff s tab env
  | replaceCard card env =>
    simp only [Lawful, LawfulAfter, Meets, step, Except.ok.injEq, forall_eq']
    exact replaceLaw_iff card
  | removeCard Index env =>
    simp only [Lawful, LawfulAfter, Meets, step, Except.ok.injEq, forall_eq', iff_true]
    exact removeCard_law env s.table Index
  | clickCard tab CardID button opened env =>
    cases button with
    | left => simp [Lawful, LawfulAfter, Meets]
    | right =>
      simp only [Lawful, LawfulAfter, Meets, iff_true]
      intro t ht cur htab hmem
      simp only [step, htab, if_pos hmem, Except.ok.injEq] at ht
      subst t
      exact removeCard_law env s.table CardID
  | openSearch tab => simp [Lawful, LawfulAfter, Meets]
  | typeSearch tab text => simp [Lawful, LawfulAfter, Meets]
  | clickAdd tab opened => simp [Lawful, LawfulAfter, Meets]
  | typeCard tab title content => simp [Lawful, LawfulAfter, Meets]
  | clickButton tab ActionID opened => simp [Lawful, LawfulAfter, Meets]
  | addCard card env => simp [Lawful, LawfulAfter, Meets]

/-- Every run goes through, and in it every confirmed edit is kept or reported and every
result flag is right exactly when every save meets its condition. -/
theorem run_lawful_iff (toLower : Text → Text) (order : TitleOrder) (className : String)
    (table : CardsTable) (actions : List Action) :
    (∃ t, Runs.run (step toLower order className) (start table) actions = .ok t) ∧
      (Runs.EveryStep (step toLower order className) (Lawful toLower order className)
          (start table) actions ↔
        Runs.EveryStep (step toLower order className) Meets (start table) actions) :=
  ⟨run_total toLower order className table actions,
    Runs.everyStep_congr _ lawful_iff_meets (start table) actions⟩

/-- Two search tabs: a card is opened from the first, removed from the second, edited and
confirmed. -/
def staleEdit : List Action :=
  [.openSearch 0, .openSearch 1, .clickCard 0 1 .left 2 {}, .clickCard 1 1 .right 3 {},
    .typeCard 2 [72, 105] [], .clickButton 2 1 3, .destroy 2 {}]

theorem stale_edit_is_lost :
    ¬ Runs.EveryStep (step asciiLower TitleOrder.stable "card_search")
      (Lawful asciiLower TitleOrder.stable "card_search") (start fizzTable) staleEdit := by
  intro hlawful
  obtain ⟨s, hrun, ⟨cur, htab, hconf, hold⟩, hfits, hrows⟩ :
      ∃ s, Runs.run (step asciiLower TitleOrder.stable "card_search") (start fizzTable)
          (staleEdit.take 6) = .ok s ∧
        (∃ cur, s.tabs 2 = some (.editCard cur) ∧ cur.bConfirmed = true ∧ cur.bNewCard = false) ∧
        (∀ cur, s.tabs 2 = some (.editCard cur) → ¬ RowThrows {} cur.cardTitle cur.cardContent) ∧
        s.table.rows = [] := by
    refine ⟨_, rfl, ⟨_, rfl, rfl, rfl⟩, ?_, rfl⟩
    intro cur hcur
    cases hcur
    simp [RowThrows, Environment.Fails, boundBytes_of_lt, maxLength]
  have hmeets := (lawful_iff_meets s _).mp (hlawful (staleEdit.take 6) (.destroy 2 {}) s ⟨[], rfl⟩ hrun)
    cur htab hconf
  rw [SaveMeets, hold] at hmeets
  have hhas := (hmeets.done (hfits cur htab)).1
  simp [KeyedTable.Has, KeyedTable.keys, hrows] at hhas

end Windows

end Unotu.Cards
