import Unotu.Cards.Database

/-!
# Access to the cards

The functions of `data.cpp`. A function that writes returns the table after it, its
result and the lines that it prints.
-/

set_option autoImplicit false

namespace Unotu.Cards

structure Card where
  title : Text
  content : Text
deriving DecidableEq

structure IndexedCard extends Card where
  id : Int32
deriving DecidableEq

/-- The card that `SearchCards` builds from a row. -/
def readRow (row : Int64 × CardRow) : IndexedCard :=
  ⟨⟨getText row.2.title, getText row.2.content⟩, getInt row.1⟩

/-! ## Searching -/

section Search

-- `unotui::ToLower`
variable (toLower : Text → Text)

def matchesQueries (card : Card) : List Text → Bool
  | [] => true
  | Part :: Queries =>
    let LowPart := toLower Part
    let LowTitle := toLower card.title
    let LowContent := toLower card.content
    if (find LowTitle LowPart).isSome || (find LowContent LowPart).isSome then
      matchesQueries card Queries
    else
      false

def allCards (rows : List (Int64 × CardRow)) : List IndexedCard :=
  rows.foldl (fun Results row => Results ++ [readRow row]) []

def filteredCards (SplitQuery : List Text) (rows : List (Int64 × CardRow)) : List IndexedCard :=
  rows.foldl
    (fun Results row =>
      let Current := readRow row
      if matchesQueries toLower Current.toCard SplitQuery then Results ++ [Current] else Results) []

def searchCards (order : TitleOrder) (table : CardsTable) (Query : StdString) :
    Option (List IndexedCard) := do
  let SplitQuery ← splitSearchQuery Query
  let DQuery := order.select table
  if SplitQuery.length = 0 then
    some (allCards DQuery)
  else
    some (filteredCards toLower SplitQuery DQuery)

end Search

/-! ## Reading and writing one card -/

def getCard (env : Environment) (table : CardsTable) (Index : Int32) :
    Except Exception IndexedCard := do
  match ← selectCard env table Index with
  | some row => .ok ⟨⟨getText row.title, getText row.content⟩, Index⟩
  | none => .error "No row to get a column from. executeStep() was not called, or returned false."

/-- What a call leaves behind. -/
structure Done (α : Type) where
  table : CardsTable
  result : α
  printed : List String := []

def addCard (env : Environment) (table : CardsTable) (card : Card) : Done Unit :=
  match execInsert env table card.title card.content with
  | .ok table' => { table := table', result := () }
  | .error why =>
    { table, result := (), printed := ["New card insertion failed, reason: " ++ why ++ "\n"] }

def showInt (n : Int32) : String := toString n.toInt

def replaceCard (env : Environment) (table : CardsTable) (card : IndexedCard) : Done Bool :=
  match execUpdate env table card.id card.title card.content with
  | .ok (table', _) => { table := table', result := true }
  | .error why =>
    { table, result := false,
      printed := ["Replacement of card ID " ++ showInt card.id ++ " failed: " ++ why ++ "\n"] }

def removeCard (env : Environment) (table : CardsTable) (Index : Int32) : Done Bool :=
  match execDelete env table Index with
  | .ok (table', changes) => { table := table', result := decide (changes > 0) }
  | .error why =>
    { table, result := false,
      printed := ["Removal of card ID " ++ showInt Index ++ " failed: " ++ why ++ "\n"] }

end Unotu.Cards
