import Unotu.Cards.Saving
import Unotu.Library.Generations

/-!
# Which card an open edit is about

An `edit_card` tab remembers the ID of its card. The card may be removed while the tab is open,
and `INTEGER PRIMARY KEY` may give its ID to a new card; the confirmed edit then replaces a card
that was never opened. The tabs stay with their own cards exactly as long as no new card
takes an ID that an open tab holds.
-/

set_option autoImplicit false

namespace Unotu.Cards

/-- The ID that a tab has opened for editing. -/
def Tab.edits : Tab → Option Int32
  | .cardSearch _ => none
  | .editCard cur => if cur.bNewCard then none else some cur.cardID

namespace Windows

def edits (s : Windows) (tab : TabId) : Option Int32 := (s.tabs tab).bind Tab.edits

variable {toLower : Text → Text} {order : TitleOrder} {className : String} {s t : Windows}

/-! ## The tabs after a step -/

/-- What a step does to the edits that are open: one may be closed, and one may be opened on a
card that is there. -/
def Continues (s t : Windows) : Prop :=
  ∀ tab CardID, t.edits tab = some CardID →
    s.edits tab = some CardID ∨ s.edits tab = none ∧ t.table.Has CardID.toInt64

def selectRaised (env : Environment) : Except Exception Unit := do
  raised env.prepareError
  raised env.stepError

/-- The exception of the `SELECT` that the step makes, if it makes one. -/
def searchRaised (s : Windows) (env : Environment) : Action → Except Exception Unit
  | .openSearch _ => selectRaised env
  | .typeSearch tab _ =>
    match s.tabs tab with
    | some (.cardSearch _) => selectRaised env
    | _ => .ok ()
  | .clickButton tab _ _ =>
    match s.tabs tab with
    | some (.editCard _) => selectRaised env
    | _ => .ok ()
  | _ => .ok ()

/-- A step in which the search has surroundings of its own; nothing catches its exception. -/
def stepSearching (toLower : Text → Text) (order : TitleOrder) (className : String) (s : Windows)
    (input : Environment × Action) : Except Exception Windows := do
  s.searchRaised input.1 input.2
  step toLower order className s input.2

end Windows

/-! ## Generations of cards -/

/-- The windows, since when each card is there, and the generation of the card that each edit
was opened on. -/
structure Tracked where
  windows : Windows
  cards : Generations Int64
  opened : TabId → Nat

namespace Tracked

open Windows

def start (table : CardsTable) : Tracked := ⟨.start table, .start table.Has, fun _ => 0⟩

def observe (s : Tracked) (windows : Windows) : Tracked :=
  let cards := s.cards.observe windows.table.Has
  { windows, cards
    opened := fun tab =>
      match s.windows.edits tab, windows.edits tab with
      | none, some CardID => (cards.born CardID.toInt64).getD 0
      | _, _ => s.opened tab }

variable (toLower : Text → Text) (order : TitleOrder) (className : String)

/-- A step with the surroundings of its search. -/
def step (s : Tracked) (input : Environment × Action) : Except Exception Tracked :=
  (stepSearching toLower order className s.windows input).map s.observe

/-- Every open edit leads to the card it was opened on, or to none. -/
def OwnCards (s : Tracked) : Prop :=
  ∀ tab CardID, s.windows.edits tab = some CardID →
    s.cards.Denotes CardID.toInt64 (s.opened tab)

/-- What every step keeps. -/
structure Dated (s : Tracked) : Prop where
  cards : s.cards.Of s.windows.table.Has
  opened : ∀ tab CardID, s.windows.edits tab = some CardID → s.opened tab < s.cards.clock

variable {toLower order className} {s t : Tracked}

theorem opened_of_edits (windows : Windows) {tab : TabId} {CardID : Int32}
    (h : s.windows.edits tab = some CardID) : (s.observe windows).opened tab = s.opened tab := by
  simp only [observe, h]

theorem opened_of_new (windows : Windows) {tab : TabId} {CardID : Int32}
    (hnone : s.windows.edits tab = none) (h : windows.edits tab = some CardID) :
    (s.observe windows).opened tab =
      ((s.cards.observe windows.table.Has).born CardID.toInt64).getD 0 := by
  simp only [observe, hnone, h]

theorem Dated.observe (h : s.Dated) {windows : Windows}
    (hcontinues : s.windows.Continues windows) : (s.observe windows).Dated where
  cards := h.cards.observe
  opened tab CardID hedits := by
    rcases hcontinues tab CardID hedits with hold | ⟨hnone, hhas⟩
    · rw [opened_of_edits windows hold]
      exact Nat.lt_succ_of_lt (h.opened tab CardID hold)
    · obtain ⟨b, hb⟩ := (h.cards.observe.used_iff _).mpr hhas
      rw [opened_of_new windows hnone hedits, hb]
      exact h.cards.observe.earlier _ b hb

/-- The only card is opened and removed, a new one is added, and the edit of the first is
confirmed. -/
def reusedID : List (Environment × Action) :=
  [({}, .openSearch 0), ({}, .clickCard 0 1 .left 1 {}), ({}, .removeCard 1 {}),
    ({}, .addCard ⟨[72, 105], []⟩ {}), ({}, .clickButton 1 1 2)]

theorem reusedID_is_edited :
    ¬ Runs.Along (step asciiLower TitleOrder.stable "card_search") OwnCards (start fizzTable)
      reusedID := by
  intro hall
  obtain ⟨s, hrun, hedits, hborn, hopened⟩ :
      ∃ s, Runs.run (step asciiLower TitleOrder.stable "card_search") (start fizzTable) reusedID =
          .ok s ∧
        s.windows.edits 1 = some 1 ∧ s.cards.born 1 = some 4 ∧ s.opened 1 = 0 :=
    ⟨_, rfl, rfl, rfl, rfl⟩
  rcases hall reusedID s List.prefix_rfl hrun 1 1 hedits with hnone | hsame
  · change s.cards.born 1 = none at hnone
    rw [hborn] at hnone
    cases hnone
  · change s.cards.born 1 = some (s.opened 1) at hsame
    rw [hborn, hopened] at hsame
    cases hsame

end Tracked

end Unotu.Cards
