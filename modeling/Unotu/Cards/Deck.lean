import Unotu.Cards.Displayed
import Unotu.Cards.Queries
import Unotu.Library.Representation

/-!
# The deck of cards

What the database is for: cards under `int` IDs, where a new card gets the ID above the largest.
As long as the texts fit, hold no null byte and the IDs stay in the range of `int`, the functions
of `data.cpp` do nothing else, down to their statements.
-/

set_option autoImplicit false

namespace Unotu.Cards

open Sqlite (Operation Answer CardsHandle onTable onHandle onHandle_refines)

abbrev Deck := KeyedTable Int32 Card

/-- Why a statement with texts that fit throws. -/
def Environment.failure (env : Environment) : Option Exception := env.prepareError.or env.stepError

def Card.Fits (card : Card) : Prop := card.WithinLimit ∧ card.NulFree

namespace Deck

def new : Deck := KeyedTable.empty

def cards (deck : Deck) : List IndexedCard := deck.rows.map fun entry => ⟨entry.2, entry.1⟩

def next (deck : Deck) : Int32 :=
  match deck.keys.max? with
  | none => 1
  | some largest => largest + 1

def add (deck : Deck) (card : Card) : Deck :=
  if h : deck.Has deck.next then deck else deck.insert deck.next card h

/-- The deck after a call; one that throws has changed nothing. -/
def after (deck : Deck) : Operation → Deck
  | .search _ _ _ => deck
  | .get _ _ => deck
  | .add env card => if env.failure.isSome then deck else deck.add card
  | .replace env card => if env.failure.isSome then deck else deck.update card.id card.toCard
  | .remove env Index => if env.failure.isSome then deck else deck.delete Index

/-- The texts fit, and the ID above the largest is an `int`. -/
def Allows (deck : Deck) : Operation → Prop
  | .search _ _ _ => True
  | .get _ _ => True
  | .add _ card => card.Fits ∧ ¬ deck.Has Int32.maxValue
  | .replace _ card => card.toCard.Fits
  | .remove _ _ => True

def AllowsAll : Deck → List Operation → Prop
  | _, [] => True
  | deck, operation :: operations =>
    deck.Allows operation ∧ (deck.after operation).AllowsAll operations

/-- What may be answered: the order of the cards with the same title is left open, and a search
that fails shows none of the rows it was given. -/
def Answers (toLower : Text → Text) (deck : Deck) : Operation → Answer → Prop
  | .search env _ Query, answer =>
    match env.failure with
    | some why => answer = .found (.error why)
    | none => ∃ Results, answer = .found (.ok Results) ∧
        Results.Perm
          (deck.cards.filter fun card => decide (Matches toLower Query.bytes card.toCard)) ∧
        Results.Pairwise fun a b => a.title ≤ b.title
  | .get env Index, answer => answer = .card (
      match env.failure, deck.select Index with
      | some why, _ => .error why
      | none, some card => .ok ⟨card, Index⟩
      | none, none =>
        .error "No row to get a column from. executeStep() was not called, or returned false.")
  | .add env _, answer => answer = .added (
      match env.failure with
      | some why => ["New card insertion failed, reason: " ++ why ++ "\n"]
      | none => [])
  | .replace env card, answer => answer =
      match env.failure with
      | some why => .succeeded false
          ["Replacement of card ID " ++ showInt card.id ++ " failed: " ++ why ++ "\n"]
      | none => .succeeded true []
  | .remove env Index, answer => answer =
      match env.failure with
      | some why => .succeeded false
          ["Removal of card ID " ++ showInt Index ++ " failed: " ++ why ++ "\n"]
      | none => .succeeded (decide (deck.Has Index)) []

/-- Calls in a row and their answers. -/
inductive Conversation (toLower : Text → Text) : Deck → List Operation → List Answer → Prop where
  | nil {deck : Deck} : Conversation toLower deck [] []
  | cons {deck : Deck} {operation : Operation} {answer : Answer} {operations : List Operation}
      {answers : List Answer} (first : deck.Answers toLower operation answer)
      (rest : Conversation toLower (deck.after operation) operations answers) :
      Conversation toLower deck (operation :: operations) (answer :: answers)

end Deck

/-! ## How the table keeps a deck -/

/-- The row has the texts of the card, and neither has a null byte. -/
def KeepsCard (card : Card) (row : CardRow) : Prop := row.NulFree ∧ rowCard row = card

def Keeps (table : CardsTable) (deck : Deck) : Prop :=
  deck.Represents Int32.toInt64 KeepsCard table

theorem keeps_new : Keeps KeyedTable.empty Deck.new := KeyedTable.represents_empty

variable {table : CardsTable} {deck : Deck} {card : Card}

theorem Keeps.readRow_eq (h : Keeps table deck) : table.rows.map readRow = deck.cards := by
  apply h.map_eq
  rintro ⟨ID, card⟩ ⟨key, row⟩ ⟨hkey, -, hcard⟩
  simp only at hkey hcard
  subst hkey hcard
  rw [readRow, rowCard, getInt, Int32.toInt32_toInt64]

theorem Keeps.nulFree (h : Keeps table deck) {row : Int64 × CardRow} (hrow : row ∈ table.rows) :
    row.2.NulFree := by
  obtain ⟨entry, -, -, hkeeps, -⟩ := h.exists_entry hrow
  exact hkeeps

theorem bindText_fits {t : Text} (h : t.length ≤ maxLength) :
    ∃ stored : StoredText, bindText t = .ok stored ∧ stored.bytes = t := by
  have hsize : t.length < 2 ^ 31 := by
    rw [maxLength] at h
    omega
  have hbound := boundBytes_of_lt hsize
  rcases bindText_cases t with ⟨hlong, -⟩ | ⟨-, stored, heq, hbytes⟩
  · rw [hbound] at hlong
    exact absurd hlong (Nat.not_lt.mpr h)
  · exact ⟨stored, heq, hbytes.mpr hsize⟩

/-- A row is stored in full, or the statement throws what its preparation or its step throws. -/
theorem boundRow_fits (env : Environment) (hfits : card.Fits) :
    ∃ row, KeepsCard card row ∧ boundRow env card.title card.content =
      match env.failure with
      | some why => .error why
      | none => .ok row := by
  obtain ⟨⟨htitle, hcontent⟩, hnul⟩ := hfits
  obtain ⟨t, ht, htbytes⟩ := bindText_fits htitle
  obtain ⟨c, hc, hcbytes⟩ := bindText_fits hcontent
  refine ⟨⟨some t, some c⟩, ⟨⟨t, c, rfl, ?_, ?_⟩, (rowCard_stored htbytes hcbytes).mpr hnul⟩, ?_⟩
  · rw [htbytes]
    exact hnul.1
  · rw [hcbytes]
    exact hnul.2
  · unfold boundRow Environment.failure
    rw [ht, hc]
    cases env.prepareError with
    | some why => rfl
    | none =>
      cases env.stepError with
      | some why => rfl
      | none => rfl

/-! ## The next ID -/

theorem maxInt64_eq (a b : Int64) : max a b = if a ≤ b then b else a := rfl

theorem maxInt32_eq (a b : Int32) : max a b = if a ≤ b then b else a := rfl

instance lawfulOrderMax_int32 : Std.LawfulOrderMax Int32 := by
  apply Std.LawfulOrderMax.of_max_le_iff
  · intro a b c
    rw [maxInt32_eq]
    split
    · rename_i hab
      exact ⟨fun h => ⟨Int32.le_trans hab h, h⟩, And.right⟩
    · rename_i hab
      have hba := (Int32.le_total a b).resolve_left hab
      exact ⟨fun h => ⟨h, Int32.le_trans hba h⟩, And.left⟩
  · intro a b
    rw [maxInt32_eq]
    split
    · exact Or.inr rfl
    · exact Or.inl rfl

theorem max?_map_toInt64 (IDs : List Int32) :
    (IDs.map Int32.toInt64).max? = IDs.max?.map Int32.toInt64 := by
  have hmax : ∀ a b : Int32, max a.toInt64 b.toInt64 = (max a b).toInt64 := by
    intro a b
    rw [maxInt64_eq, maxInt32_eq, apply_ite Int32.toInt64]
    simp only [Int32.toInt64_le]
  cases IDs with
  | nil => rfl
  | cons ID IDs =>
    rw [List.map_cons, List.max?_cons', List.max?_cons', Option.map_some]
    congr 1
    exact List.foldl_map_hom hmax

theorem toInt_lt_of_ne {ID : Int32} (h : ID ≠ Int32.maxValue) : ID.toInt + 1 < 2 ^ 31 := by
  have hlt := Int32.toInt_lt ID
  have hne : ID.toInt ≠ 2 ^ 31 - 1 := by
    intro heq
    exact h (Int32.toInt_inj.mp heq)
  omega

theorem toInt_add_one {ID : Int32} (h : ID.toInt + 1 < 2 ^ 31) : (ID + 1).toInt = ID.toInt + 1 := by
  have hle := Int32.le_toInt ID
  rw [Int32.toInt_add, Int32.toInt_one]
  exact Int.bmod_eq_of_le (by omega) (by omega)

theorem toInt64_add_one {ID : Int32} (h : ID.toInt + 1 < 2 ^ 31) :
    (ID + 1).toInt64 = ID.toInt64 + 1 := by
  have hle := Int32.le_toInt ID
  rw [← Int64.toInt_inj, Int32.toInt_toInt64, toInt_add_one h, Int64.toInt_add, Int64.toInt_one,
    Int32.toInt_toInt64]
  exact (Int.bmod_eq_of_le (by omega) (by omega)).symm

section NextID

variable (hroom : ¬ deck.Has Int32.maxValue)

include hroom

theorem Deck.next_above {largest : Int32} (hmax : deck.keys.max? = some largest) :
    largest.toInt + 1 < 2 ^ 31 := by
  apply toInt_lt_of_ne
  rintro rfl
  exact hroom (List.max?_mem hmax)

theorem Deck.next_new : ¬ deck.Has deck.next := by
  unfold Deck.next
  cases hmax : deck.keys.max? with
  | none =>
    rw [List.max?_eq_none_iff] at hmax
    rw [KeyedTable.Has, hmax]
    exact List.not_mem_nil
  | some largest =>
    have hnext := toInt_add_one (next_above hroom hmax)
    intro hhas
    have hle : (largest + 1).toInt ≤ largest.toInt :=
      Int32.le_iff_toInt_le.mp ((List.max?_eq_some_iff.mp hmax).2 _ hhas)
    omega

theorem Keeps.newID_eq (h : Keeps table deck) (env : Environment) :
    newID env table = deck.next.toInt64 := by
  rw [newID, h.keys_eq, max?_map_toInt64, Deck.next]
  cases hmax : deck.keys.max? with
  | none => rfl
  | some largest =>
    have habove := Deck.next_above hroom hmax
    rw [toInt64_add_one habove]
    simp only [Option.map_some]
    rw [if_pos]
    rw [Int64.lt_iff_toInt_lt, Int32.toInt_toInt64, Int64.toInt_maxValue]
    omega

end NextID

/-! ## Each call -/

section Calls

variable (h : Keeps table deck)

include h

theorem execInsert_keeps (env : Environment) (hcard : card.Fits)
    (hroom : ¬ deck.Has Int32.maxValue) :
    match env.failure with
    | some why => execInsert env table card.title card.content = .error why
    | none => ∃ after, execInsert env table card.title card.content = .ok after ∧
        Keeps after (deck.add card) := by
  obtain ⟨row, hrow, hbound⟩ := boundRow_fits env hcard
  have hdeck := Deck.next_new hroom
  have hID := h.newID_eq hroom env
  have htable : ¬ table.Has (newID env table) := by
    rw [hID, h.has_iff toInt64_injective]
    exact hdeck
  unfold execInsert
  rw [hbound]
  cases env.failure with
  | some why => rfl
  | none =>
    refine ⟨table.insert (newID env table) row htable, ?_, ?_⟩
    · simp only [bind, Except.bind, dif_neg htable]
    · rw [Deck.add, dif_neg hdeck]
      unfold Keeps
      generalize newID env table = ID at hID htable
      subst hID
      exact h.insert hrow hdeck htable

theorem execUpdate_keeps (env : Environment) (ID : Int32) (hcard : card.Fits) :
    match env.failure with
    | some why => execUpdate env table ID card.title card.content = .error why
    | none => ∃ after changes, execUpdate env table ID card.title card.content = .ok (after, changes) ∧
        Keeps after (deck.update ID card) := by
  obtain ⟨row, hrow, hbound⟩ := boundRow_fits env hcard
  unfold execUpdate
  rw [hbound]
  cases env.failure with
  | some why => rfl
  | none => exact ⟨_, _, rfl, h.update toInt64_injective hrow⟩

omit h in
theorem raised_failure {α : Type} (env : Environment) (result : Except Exception α) :
    (do
      raised env.prepareError
      raised env.stepError
      result) =
      match env.failure with
      | some why => .error why
      | none => result := by
  unfold Environment.failure
  cases env.prepareError with
  | some why => rfl
  | none =>
    cases env.stepError with
    | some why => rfl
    | none => rfl

theorem found_keeps (toLower : Text → Text) (order : TitleOrder) (Query : Text) :
    ((found toLower order table Query).map readRow).Perm
        (deck.cards.filter fun card => decide (Matches toLower Query card.toCard)) ∧
      ((found toLower order table Query).map readRow).Pairwise fun a b => a.title ≤ b.title := by
  constructor
  · have hperm := ((order.perm table).filter
      fun row => decide (Matches toLower Query (readRow row).toCard)).map readRow
    rw [← h.readRow_eq, List.filter_map]
    exact hperm
  · rw [List.pairwise_map]
    have hsorted := (order.sorted table).sublist
      (List.filter_sublist (p := fun row => decide (Matches toLower Query (readRow row).toCard)))
    apply hsorted.imp_of_mem
    intro a b ha hb hle
    obtain ⟨s, c, hrow, hnul, -⟩ := h.nulFree (mem_found_iff.mp ha).1
    obtain ⟨t, d, hrow', hnul', -⟩ := h.nulFree (mem_found_iff.mp hb).1
    rw [hrow, hrow', titleLe, decide_eq_true_iff] at hle
    rw [readRow, readRow, hrow, hrow']
    simp only [getText]
    rw [cString_eq_self_iff.mpr hnul, cString_eq_self_iff.mpr hnul']
    exact hle

theorem getCard_keeps (env : Environment) (Index : Int32) :
    getCard env table Index =
      match env.failure, deck.select Index with
      | some why, _ => .error why
      | none, some card => .ok ⟨card, Index⟩
      | none, none =>
        .error "No row to get a column from. executeStep() was not called, or returned false." := by
  have hselect := h.select toInt64_injective (k := Index)
  unfold getCard selectCard
  rw [raised_failure]
  cases env.failure with
  | some why => rfl
  | none =>
    cases hdeck : deck.select Index with
    | none =>
      rw [hdeck] at hselect
      cases htable : table.select Index.toInt64 with
      | none => rfl
      | some row =>
        rw [htable] at hselect
        cases hselect
    | some card =>
      rw [hdeck] at hselect
      cases htable : table.select Index.toInt64 with
      | none =>
        rw [htable] at hselect
        cases hselect
      | some row =>
        rw [htable] at hselect
        cases hselect with
        | some hkeeps =>
          rw [← hkeeps.2]
          rfl

theorem onTable_keeps (toLower : Text → Text) (order : TitleOrder) {operation : Operation}
    (hallowed : deck.Allows operation) :
    Keeps (onTable toLower order table operation).1 (deck.after operation) ∧
      deck.Answers toLower operation (onTable toLower order table operation).2 := by
  cases operation with
  | search env delivered Query =>
    rw [onTable, searchCards_eq]
    refine ⟨h, ?_⟩
    simp only [Deck.Answers]
    rw [raised_failure]
    cases env.failure with
    | some why => rfl
    | none => exact ⟨_, rfl, found_keeps h toLower order Query.bytes⟩
  | get env Index => exact ⟨h, congrArg Answer.card (getCard_keeps h env Index)⟩
  | add env card =>
    have hinsert := execInsert_keeps h env hallowed.1 hallowed.2
    simp only [onTable, addCard, Deck.after, Deck.Answers]
    cases hfailure : env.failure with
    | some why =>
      rw [hfailure] at hinsert
      simp only at hinsert
      rw [hinsert]
      exact ⟨h, rfl⟩
    | none =>
      rw [hfailure] at hinsert
      obtain ⟨after, heq, hkeeps⟩ := hinsert
      rw [heq]
      exact ⟨hkeeps, rfl⟩
  | replace env card =>
    have hupdate := execUpdate_keeps h env card.id hallowed
    simp only [onTable, replaceCard, Deck.after, Deck.Answers]
    cases hfailure : env.failure with
    | some why =>
      rw [hfailure] at hupdate
      simp only at hupdate
      rw [hupdate]
      exact ⟨h, rfl⟩
    | none =>
      rw [hfailure] at hupdate
      obtain ⟨after, changes, heq, hkeeps⟩ := hupdate
      rw [heq]
      exact ⟨hkeeps, rfl⟩
  | remove env Index =>
    simp only [onTable, removeCard, execDelete, Deck.after, Deck.Answers]
    rw [raised_failure]
    cases env.failure with
    | some why => exact ⟨h, rfl⟩
    | none =>
      refine ⟨h.delete toInt64_injective, ?_⟩
      have hchanges : table.matching Index.toInt64 > 0 ↔ deck.Has Index := by
        rw [gt_iff_lt, KeyedTable.matching_pos_iff, h.has_iff toInt64_injective]
      simp only [decide_eq_decide.mpr hchanges]

end Calls

/-! ## Whole sessions -/

theorem transcript_conversation (toLower : Text → Text) (order : TitleOrder) {db : CardsHandle}
    (h : Keeps db.content deck) {operations : List Operation}
    (hallowed : deck.AllowsAll operations) :
    ∃ bound after answers,
      (∀ fuel, bound ≤ fuel →
        Simulation.transcript (onHandle toLower order fuel) db operations = .ok (after, answers)) ∧
      deck.Conversation toLower operations answers ∧
      Keeps after.content (operations.foldl Deck.after deck) := by
  induction operations generalizing db deck with
  | nil => exact ⟨0, db, [], fun _ _ => rfl, .nil, h⟩
  | cons operation operations ih =>
    obtain ⟨hfirst, hrest⟩ := hallowed
    obtain ⟨first, next, hnext, hstep⟩ := onHandle_refines toLower order db operation
    obtain ⟨hkeeps, hanswers⟩ := onTable_keeps h toLower order hfirst
    rw [← hnext] at hkeeps
    obtain ⟨rest, after, answers, hrun, hconversation, hafter⟩ := ih hkeeps hrest
    refine ⟨max first rest, after, _ :: answers, ?_, .cons hanswers hconversation, hafter⟩
    intro fuel hfuel
    exact Simulation.transcript_cons _ (hstep fuel (le_trans (le_max_left _ _) hfuel))
      (hrun fuel (le_trans (le_max_right _ _) hfuel))

/-- The search is given the one card, and then the database is busy. -/
def fizzSession : List Operation :=
  [.add {} ⟨[70, 105, 122, 122], []⟩,
    .search { stepError := some "database is busy" } 1 Windows.fizzQuery, .get {} 1, .remove {} 1]

theorem fizzSession_conversation :
    ∃ bound after answers,
      (∀ fuel, bound ≤ fuel →
        Simulation.transcript (onHandle asciiLower TitleOrder.stable fuel)
          ⟨KeyedTable.empty, .ok, 0⟩ fizzSession = .ok (after, answers)) ∧
      Deck.new.Conversation asciiLower fizzSession answers ∧
      Keeps after.content (fizzSession.foldl Deck.after Deck.new) := by
  apply transcript_conversation asciiLower TitleOrder.stable keeps_new
  refine ⟨⟨⟨⟨?_, ?_⟩, ?_⟩, List.not_mem_nil⟩, trivial, trivial, trivial, trivial⟩
  · decide
  · decide
  · exact ⟨by decide, by decide⟩

end Unotu.Cards
