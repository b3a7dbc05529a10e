import Unotu.Cards.Search
import Unotu.Library.Runs

/-!
# Windows over one table

Any number of `card_search` and `edit_card` tabs share the database. A tab is destroyed
some time after `SwitchTab` has replaced it, so the steps of different tabs interleave
freely. The destructor of an `edit_card` saves the card when Confirm was clicked.
-/

set_option autoImplicit false

namespace Unotu.Cards

structure CardSearch where
  searchField : StdString := ⟨[], by decide⟩
  /-- The `CardID`s of the items of the scrollbox. -/
  items : List Int32 := []

structure EditCard where
  bNewCard : Bool := true
  cardID : Int32 := -1
  cardTitle : Text := []
  cardContent : Text := []
  bConfirmed : Bool := false

def EditCard.ofCard (card : IndexedCard) : EditCard :=
  { bNewCard := false, cardID := card.id, cardTitle := card.title, cardContent := card.content }

def EditCard.card (tab : EditCard) : IndexedCard :=
  ⟨⟨tab.cardTitle, tab.cardContent⟩, tab.cardID⟩

def saveCard (env : Environment) (table : CardsTable) (tab : EditCard) : Done Unit :=
  if tab.bNewCard then
    addCard env table tab.card.toCard
  else
    let ReplacedCard := replaceCard env table tab.card
    { table := ReplacedCard.table, result := (),
      printed := ReplacedCard.printed ++
        if !ReplacedCard.result then
          ["Failed to replace card ID " ++ showInt tab.card.id ++ "!\n"]
        else [] }

def destroyEditCard (env : Environment) (table : CardsTable) (tab : EditCard) : Done Unit :=
  if tab.bConfirmed then saveCard env table tab else { table, result := () }

def removeCardVisual (tab : CardSearch) (Identifier : Int32) : CardSearch :=
  { tab with items := tab.items.erase Identifier }

inductive Tab where
  | cardSearch (tab : CardSearch)
  | editCard (tab : EditCard)

abbrev TabId := Nat

inductive MouseButton where
  | left
  | right

inductive Action where
  | openSearch (tab : TabId)
  | typeSearch (tab : TabId) (text : StdString)
  | clickAdd (tab opened : TabId)
  | clickCard (tab : TabId) (CardID : Int32) (button : MouseButton) (opened : TabId)
      (env : Environment)
  | typeCard (tab : TabId) (title content : Text)
  | clickButton (tab : TabId) (ActionID : Int32) (opened : TabId)
  | destroy (tab : TabId) (env : Environment)
  | addCard (card : Card) (env : Environment)
  | replaceCard (card : IndexedCard) (env : Environment)
  | removeCard (Index : Int32) (env : Environment)

structure Windows where
  table : CardsTable
  tabs : TabId → Option Tab
  printed : List String

namespace Windows

def start (table : CardsTable) : Windows := ⟨table, fun _ => none, []⟩

def setTab (s : Windows) (tab : TabId) (contents : Option Tab) : Windows :=
  { s with tabs := Function.update s.tabs tab contents }

/-- What is left of a call on the database. -/
def finish {α : Type} (s : Windows) (done : Done α) : Windows :=
  { s with table := done.table, printed := s.printed ++ done.printed }

/-- `SwitchTab` to a new tab. -/
def openTab (s : Windows) (opened : TabId) (contents : Tab) : Windows :=
  match s.tabs opened with
  | none => s.setTab opened (some contents)
  | some _ => s

variable (toLower : Text → Text) (order : TitleOrder) (className : String)

def search (s : Windows) (tab : CardSearch) : Except Exception CardSearch :=
  match searchCards toLower order s.table tab.searchField with
  | some Results => .ok { tab with items := Results.map (·.id) }
  | none => .error "basic_string::substr"

/-- A click of the left button on a card. -/
def editClicked (s : Windows) (CardID : Int32) (opened : TabId) (env : Environment) : Windows :=
  match getCard env s.table CardID with
  | .ok card => s.openTab opened (.editCard (.ofCard card))
  | .error why =>
    { s with printed := s.printed ++
        [className ++ " -- Error while trying to edit a card (ID " ++ showInt CardID ++ "): " ++
          why ++ "\n"] }

/-- A click of the right button on a card. -/
def removeClicked (s : Windows) (tab : TabId) (search : CardSearch) (CardID : Int32)
    (env : Environment) : Windows :=
  (s.finish (removeCard env s.table CardID)).setTab tab
    (some (.cardSearch (removeCardVisual search CardID)))

/-- One step of some tab. A step of a tab that is not there does nothing. -/
def step (s : Windows) : Action → Except Exception Windows
  | .openSearch tab => do
    let opened ← search toLower order s {}
    .ok (s.openTab tab (.cardSearch opened))
  | .typeSearch tab text =>
    match s.tabs tab with
    | some (.cardSearch cur) => do
      let found ← search toLower order s { cur with searchField := text }
      .ok (s.setTab tab (some (.cardSearch found)))
    | _ => .ok s
  | .clickAdd tab opened =>
    match s.tabs tab with
    | some (.cardSearch _) => .ok (s.openTab opened (.editCard {}))
    | _ => .ok s
  | .clickCard tab CardID button opened env =>
    match s.tabs tab with
    | some (.cardSearch cur) =>
      if CardID ∈ cur.items then
        match button with
        | .left => .ok (editClicked className s CardID opened env)
        | .right => .ok (removeClicked s tab cur CardID env)
      else
        .ok s
    | _ => .ok s
  | .typeCard tab title content =>
    match s.tabs tab with
    | some (.editCard cur) =>
      .ok (s.setTab tab (some (.editCard { cur with cardTitle := title, cardContent := content })))
    | _ => .ok s
  | .clickButton tab ActionID opened =>
    match s.tabs tab with
    | some (.editCard cur) => do
      let clicked : EditCard := if ActionID = 1 then { cur with bConfirmed := true } else cur
      let fresh ← search toLower order s {}
      .ok ((s.setTab tab (some (.editCard clicked))).openTab opened (.cardSearch fresh))
    | _ => .ok s
  | .destroy tab env =>
    match s.tabs tab with
    | some (.editCard cur) => .ok ((s.finish (destroyEditCard env s.table cur)).setTab tab none)
    | some (.cardSearch _) => .ok (s.setTab tab none)
    | none => .ok s
  | .addCard card env => .ok (s.finish (Cards.addCard env s.table card))
  | .replaceCard card env => .ok (s.finish (Cards.replaceCard env s.table card))
  | .removeCard Index env => .ok (s.finish (Cards.removeCard env s.table Index))

/-! ## What a step has done -/

/-- The tab with what its search finds. -/
def searched (s : Windows) (tab : CardSearch) : CardSearch :=
  { tab with items := ((found toLower order s.table tab.searchField.bytes).map readRow).map (·.id) }

theorem search_ok (s : Windows) (tab : CardSearch) :
    search toLower order s tab = .ok (searched toLower order s tab) := by
  simp only [search, searchCards_eq, searched]

/-- The tab is there, is one that the action is for, and shows the card that is clicked. -/
def Acts (s : Windows) : Action → Prop
  | .openSearch _ | .addCard _ _ | .replaceCard _ _ | .removeCard _ _ => True
  | .typeSearch tab _ | .clickAdd tab _ => ∃ cur, s.tabs tab = some (.cardSearch cur)
  | .clickCard tab CardID _ _ _ =>
    ∃ cur, s.tabs tab = some (.cardSearch cur) ∧ CardID ∈ cur.items
  | .typeCard tab _ _ | .clickButton tab _ _ => ∃ cur, s.tabs tab = some (.editCard cur)
  | .destroy tab _ => ∃ contents, s.tabs tab = some contents

/-- The action found nothing to act on, or it led to the second state by its change. -/
inductive Effect (s : Windows) : Action → Windows → Prop where
  | ignored {a : Action} : ¬ s.Acts a → Effect s a s
  | openSearch {tab : TabId} :
      Effect s (.openSearch tab) (s.openTab tab (.cardSearch (searched toLower order s {})))
  | typeSearch {tab : TabId} {text : StdString} {cur : CardSearch} :
      s.tabs tab = some (.cardSearch cur) →
      Effect s (.typeSearch tab text)
        (s.setTab tab (some (.cardSearch (searched toLower order s { cur with searchField := text }))))
  | clickAdd {tab opened : TabId} {cur : CardSearch} : s.tabs tab = some (.cardSearch cur) →
      Effect s (.clickAdd tab opened) (s.openTab opened (.editCard {}))
  | clickEdit {tab opened : TabId} {CardID : Int32} {env : Environment} {cur : CardSearch} :
      s.tabs tab = some (.cardSearch cur) → CardID ∈ cur.items →
      Effect s (.clickCard tab CardID .left opened env) (editClicked className s CardID opened env)
  | clickRemove {tab opened : TabId} {CardID : Int32} {env : Environment} {cur : CardSearch} :
      s.tabs tab = some (.cardSearch cur) → CardID ∈ cur.items →
      Effect s (.clickCard tab CardID .right opened env) (removeClicked s tab cur CardID env)
  | typeCard {tab : TabId} {title content : Text} {cur : EditCard} :
      s.tabs tab = some (.editCard cur) →
      Effect s (.typeCard tab title content)
        (s.setTab tab (some (.editCard { cur with cardTitle := title, cardContent := content })))
  | clickButton {tab opened : TabId} {ActionID : Int32} {cur clicked : EditCard} :
      s.tabs tab = some (.editCard cur) →
      clicked = (if ActionID = 1 then { cur with bConfirmed := true } else cur) →
      Effect s (.clickButton tab ActionID opened)
        ((s.setTab tab (some (.editCard clicked))).openTab opened
          (.cardSearch (searched toLower order s {})))
  | destroyEdit {tab : TabId} {env : Environment} {cur : EditCard} :
      s.tabs tab = some (.editCard cur) →
      Effect s (.destroy tab env) ((s.finish (destroyEditCard env s.table cur)).setTab tab none)
  | destroySearch {tab : TabId} {env : Environment} {cur : CardSearch} :
      s.tabs tab = some (.cardSearch cur) → Effect s (.destroy tab env) (s.setTab tab none)
  | addCard {card : Card} {env : Environment} :
      Effect s (.addCard card env) (s.finish (Cards.addCard env s.table card))
  | replaceCard {card : IndexedCard} {env : Environment} :
      Effect s (.replaceCard card env) (s.finish (Cards.replaceCard env s.table card))
  | removeCard {Index : Int32} {env : Environment} :
      Effect s (.removeCard Index env) (s.finish (Cards.removeCard env s.table Index))

theorem step_of_not_acts {s : Windows} {a : Action} (h : ¬ s.Acts a) :
    step toLower order className s a = .ok s := by
  cases a with
  | openSearch | addCard | replaceCard | removeCard => exact absurd trivial h
  | typeSearch | clickAdd | typeCard | clickButton =>
    simp only [step]
    split
    · rename_i htab
      exact absurd ⟨_, htab⟩ h
    · rfl
  | clickCard =>
    simp only [step]
    split
    · rename_i htab
      rw [if_neg (fun hitem => h ⟨_, htab, hitem⟩)]
    · rfl
  | destroy =>
    simp only [step]
    split
    · rename_i htab
      exact absurd ⟨_, htab⟩ h
    · rename_i htab
      exact absurd ⟨_, htab⟩ h
    · rfl

/-- No step throws. -/
theorem step_total (s : Windows) (a : Action) :
    ∃ t, step toLower order className s a = .ok t ∧ Effect toLower order className s a t := by
  by_cases hacts : s.Acts a
  · cases a with
    | openSearch tab =>
      refine ⟨_, ?_, .openSearch⟩
      rw [step, search_ok]
      rfl
    | typeSearch tab text =>
      obtain ⟨cur, htab⟩ := hacts
      refine ⟨_, ?_, .typeSearch htab⟩
      simp only [step, htab, search_ok]
      rfl
    | clickAdd tab opened =>
      obtain ⟨cur, htab⟩ := hacts
      exact ⟨_, by simp only [step, htab], .clickAdd htab⟩
    | clickCard tab CardID button opened env =>
      obtain ⟨cur, htab, hitem⟩ := hacts
      cases button with
      | left => exact ⟨_, by simp only [step, htab, if_pos hitem], .clickEdit htab hitem⟩
      | right => exact ⟨_, by simp only [step, htab, if_pos hitem], .clickRemove htab hitem⟩
    | typeCard tab title content =>
      obtain ⟨cur, htab⟩ := hacts
      exact ⟨_, by simp only [step, htab], .typeCard htab⟩
    | clickButton tab ActionID opened =>
      obtain ⟨cur, htab⟩ := hacts
      refine ⟨_, ?_, .clickButton htab rfl⟩
      simp only [step, htab, search_ok]
      rfl
    | destroy tab env =>
      obtain ⟨contents, htab⟩ := hacts
      cases contents with
      | cardSearch cur => exact ⟨_, by simp only [step, htab], .destroySearch htab⟩
      | editCard cur => exact ⟨_, by simp only [step, htab], .destroyEdit htab⟩
    | addCard card env => exact ⟨_, rfl, .addCard⟩
    | replaceCard card env => exact ⟨_, rfl, .replaceCard⟩
    | removeCard Index env => exact ⟨_, rfl, .removeCard⟩
  · exact ⟨s, step_of_not_acts toLower order className hacts, .ignored hacts⟩

variable {toLower order className} in
theorem step_effect {s t : Windows} {a : Action} (ht : step toLower order className s a = .ok t) :
    Effect toLower order className s a t := by
  obtain ⟨t', ht', heffect⟩ := step_total toLower order className s a
  rw [ht] at ht'
  cases ht'
  exact heffect

theorem run_total (table : CardsTable) (actions : List Action) :
    ∃ t, Runs.run (step toLower order className) (start table) actions = .ok t := by
  obtain ⟨t, ht, -⟩ := Runs.run_invariant (step toLower order className) (P := fun _ => True)
    (fun s a _ => by
      obtain ⟨t, ht, -⟩ := step_total toLower order className s a
      exact ⟨t, ht, trivial⟩)
    (s := start table) trivial actions
  exact ⟨t, ht⟩

end Windows

end Unotu.Cards
