import Unotu.Cards.Deck
import Unotu.Cards.Starts
import Mathlib.Data.List.Induction

/-!
# What the first start makes searchable

The cards that the starts leave are inserted into a new table by one prepared statement. They
become the deck numbered from 1, so that a search shows and an edit opens exactly them.
-/

set_option autoImplicit false

namespace Unotu.Cards

open Sqlite (CardsHandle Bindings insertAll insertOnce insertInto insertOnce_inserted prepared)

/-! ## The test cards fit -/

/-- No null byte, and at most this many bytes. -/
def Short (s : String) (n : Nat) : Prop :=
  0 ∉ Setup.asciiText s ∧ (Setup.asciiText s).length ≤ n

theorem Short.append {s t : String} {m n : Nat} (hs : Short s m) (ht : Short t n) :
    Short (s ++ t) (m + n) := by
  have happend : Setup.asciiText (s ++ t) = Setup.asciiText s ++ Setup.asciiText t := by
    rw [Setup.asciiText, String.toList_append, List.map_append]
    rfl
  unfold Short
  rw [happend, List.mem_append, List.length_append]
  refine ⟨?_, Nat.add_le_add hs.2 ht.2⟩
  intro h
  rcases h with h | h
  · exact hs.1 h
  · exact ht.1 h

theorem Short.ite_append {s t : String} {m n : Nat} (hs : Short s m) (ht : Short t n) (p : Prop)
    [Decidable p] : Short (if p then s ++ t else s) (m + n) := by
  split
  · exact hs.append ht
  · exact ⟨hs.1, Nat.le_add_right_of_le hs.2⟩

theorem digit_ne_zero {digit : Char} (h : digit.isDigit = true) : digit.toUInt8 ≠ 0 := by
  intro hzero
  have hbyte : digit.toNat % 256 = 0 := congrArg UInt8.toNat hzero
  have hrange : 48 ≤ digit.toNat ∧ digit.toNat ≤ 57 := Char.isDigit_iff_toNat.mp h
  omega

theorem short_toString {n : Nat} (h : n < 2 ^ 31) : Short (toString n) 10 := by
  unfold Short Setup.asciiText
  rw [Nat.toString_eq_repr, Nat.toList_repr, List.length_map,
    Nat.length_toDigits_le_iff (by decide) (by decide)]
  constructor
  · intro hzero
    obtain ⟨digit, hdigit, heq⟩ := List.mem_map.mp hzero
    exact digit_ne_zero (Nat.isDigit_of_mem_toDigits (by decide) (by decide) hdigit) heq
  · omega

theorem testCard_fits {i : Nat} (h : i < 2 ^ 31) : (Setup.testCard i).Fits := by
  have hName : Short ("Test Card #" ++ toString i) (11 + 10) :=
    Short.append ⟨by decide, by decide⟩ (short_toString h)
  have hContent : Short (("Test Card #" ++ toString i) ++ "\n") (11 + 10 + 1) :=
    hName.append ⟨by decide, by decide⟩
  have hFizz := hContent.ite_append (t := "Fizz") (n := 4) ⟨by decide, by decide⟩ (i % 3 = 0)
  have hBuzz := hFizz.ite_append (t := "Buzz") (n := 4) ⟨by decide, by decide⟩ (i % 5 = 0)
  refine ⟨⟨hName.2.trans ?_, hBuzz.2.trans ?_⟩, hName.1, hBuzz.1⟩
  · decide
  · decide

/-! ## A deck from its cards -/

namespace Deck

def ofCards (cards : List Card) : Deck := cards.foldl Deck.add .new

variable {deck : Deck} {cards : List Card}

theorem ofCards_append_singleton (cards : List Card) (card : Card) :
    ofCards (cards ++ [card]) = (ofCards cards).add card := List.foldl_append

/-- The IDs from 1 on, as many as there are cards. -/
def NumberedFrom1 (deck : Deck) (n : Nat) : Prop := deck.keys = (List.range' 1 n).map Int32.ofNat

theorem NumberedFrom1.room {n : Nat} (h : deck.NumberedFrom1 n) (hn : n + 1 < 2 ^ 31) :
    ¬ deck.Has Int32.maxValue := by
  rw [KeyedTable.Has, h, List.mem_map]
  rintro ⟨i, hi, heq⟩
  rw [List.mem_range'_1] at hi
  have htoInt := congrArg Int32.toInt heq
  rw [Int32.toInt_ofNat_of_lt (by omega), Int32.toInt_maxValue] at htoInt
  omega

theorem NumberedFrom1.next_eq {n : Nat} (h : deck.NumberedFrom1 n) (hn : n + 1 < 2 ^ 31) :
    deck.next = Int32.ofNat (n + 1) := by
  rw [next, h]
  cases n with
  | zero => rfl
  | succ n =>
    have hmax : ((List.range' 1 (n + 1)).map Int32.ofNat).max? = some (Int32.ofNat (n + 1)) := by
      rw [List.max?_eq_some_iff]
      constructor
      · exact List.mem_map_of_mem (List.mem_range'_1.mpr (by omega))
      · intro ID hID
        obtain ⟨i, hi, rfl⟩ := List.mem_map.mp hID
        rw [List.mem_range'_1] at hi
        rw [Int32.le_iff_toInt_le, Int32.toInt_ofNat_of_lt (by omega),
          Int32.toInt_ofNat_of_lt (by omega)]
        omega
    rw [hmax]
    exact (Int32.ofNat_add (n + 1) 1).symm

/-- The rows of a deck of cards that were added one after the other. -/
def numberedRows (cards : List Card) : List (Int32 × Card) :=
  (cards.zipIdx 1).map fun entry => (Int32.ofNat entry.2, entry.1)

theorem numbered_of_rows (h : deck.rows = numberedRows cards) :
    deck.NumberedFrom1 cards.length := by
  rw [NumberedFrom1, KeyedTable.keys, h, numberedRows, List.map_map, ← List.zipIdx_map_snd 1 cards,
    List.map_map]
  rfl

theorem ofCards_rows (h : cards.length < 2 ^ 31) : (ofCards cards).rows = numberedRows cards := by
  induction cards using List.reverseRecOn with
  | nil => rfl
  | append_singleton cards card ih =>
    rw [List.length_append, List.length_singleton] at h
    have hrows := ih (by omega)
    have hnumbered := numbered_of_rows hrows
    have hinsert : (ofCards (cards ++ [card])).rows =
        (ofCards cards).rows ++ [((ofCards cards).next, card)] := by
      rw [ofCards_append_singleton, add, dif_neg (next_new (hnumbered.room h)), KeyedTable.insert]
    rw [hinsert, hrows, hnumbered.next_eq h, numberedRows, numberedRows, List.zipIdx_append,
      List.map_append, List.zipIdx_singleton, Nat.add_comm 1, List.map_singleton]

theorem ofCards_cards (h : cards.length < 2 ^ 31) :
    (ofCards cards).cards = (cards.zipIdx 1).map fun entry => ⟨entry.1, Int32.ofNat entry.2⟩ := by
  rw [Deck.cards, ofCards_rows h, numberedRows, List.map_map]
  rfl

theorem select_ofCards (h : cards.length < 2 ^ 31) (ID : Int32) :
    (ofCards cards).select ID = if 1 ≤ ID.toInt then cards[ID.toInt.toNat - 1]? else none := by
  ext card
  rw [KeyedTable.select_eq_some_iff, KeyedTable.Holds, ofCards_rows h, numberedRows, List.mem_map,
    Option.ite_none_right_eq_some]
  constructor
  · rintro ⟨⟨c, i⟩, hmem, heq⟩
    cases heq
    obtain ⟨hle, hget⟩ := List.mk_mem_zipIdx_iff_le_and_getElem?_sub.mp hmem
    have hlt := (List.getElem?_eq_some_iff.mp hget).1
    have hID : (Int32.ofNat i).toInt = i := Int32.toInt_ofNat_of_lt (by omega)
    rw [hID, Int.toNat_natCast]
    exact ⟨by omega, hget⟩
  · rintro ⟨hpos, hget⟩
    refine ⟨(card, ID.toInt.toNat), ?_, ?_⟩
    · exact List.mk_mem_zipIdx_iff_le_and_getElem?_sub.mpr ⟨by omega, hget⟩
    · have hlt := Int32.toInt_lt ID
      have hID : Int32.ofNat ID.toInt.toNat = ID := by
        rw [← Int32.toInt_inj, Int32.toInt_ofNat_of_lt (by omega)]
        omega
      rw [hID]

end Deck

/-! ## The inserts of the first start -/

theorem prepared_failure {env : Environment} (h : env.stepError = none) :
    (prepared env).failure = none := h

theorem insertAll_keeps {inserts : List (Environment × Card)} {stored : List Card}
    (henv : ∀ entry ∈ inserts, entry.1.stepError = none) (hfits : ∀ entry ∈ inserts, entry.2.Fits)
    (hfit : (stored ++ inserts.map Prod.snd).length < 2 ^ 31) (env : Environment) (b : Bindings)
    {db : CardsHandle} (h : Keeps db.content (Deck.ofCards stored)) :
    (insertAll inserts { query := insertInto env, bindings := b } db).result = .ok () ∧
      Keeps (insertAll inserts { query := insertInto env, bindings := b } db).handle.content
        (Deck.ofCards (stored ++ inserts.map Prod.snd)) := by
  induction inserts generalizing stored env b db with
  | nil =>
    rw [List.map_nil, List.append_nil]
    exact ⟨rfl, h⟩
  | cons first inserts ih =>
    obtain ⟨env', card⟩ := first
    rw [List.map_cons] at hfit ⊢
    have hlength : stored.length + 1 < 2 ^ 31 := by
      rw [List.length_append, List.length_cons] at hfit
      omega
    have hroom := (Deck.numbered_of_rows (Deck.ofCards_rows (by omega))).room hlength
    have hinsert := execInsert_keeps h (prepared env') (hfits _ List.mem_cons_self) hroom
    rw [prepared_failure (henv _ List.mem_cons_self)] at hinsert
    obtain ⟨after, heq, hkeeps⟩ := hinsert
    have hfirst := insertOnce_inserted env' b db card
    rw [heq] at hfirst
    rw [← Deck.ofCards_append_singleton] at hkeeps
    rw [List.append_cons] at hfit ⊢
    unfold insertAll
    generalize insertOnce _ db card = called at hfirst ⊢
    cases hfirst with
    | ok =>
      exact ih (fun entry hentry => henv entry (List.mem_cons_of_mem _ hentry))
        (fun entry hentry => hfits entry (List.mem_cons_of_mem _ hentry)) hfit _ _ hkeeps

namespace Setup

variable {TotalCards CommitEvery : Nat}

theorem getElem?_testCards (k j : Nat) :
    (testCards k)[j]? = if j < k then some (testCard j) else none := by
  rw [testCards, List.getElem?_map]
  split
  · rename_i h
    rw [List.getElem?_range h, Option.map_some]
  · rename_i h
    rw [List.getElem?_eq_none (by rw [List.length_range]; omega), Option.map_none]

/-- The table is the deck of the first test cards: a search shows exactly the matching ones of
them, and `GetCard` gives each under its place in the loop. -/
structure ShowsTestCards (toLower : Text → Text) (order : TitleOrder) (table : CardsTable)
    (k : Nat) : Prop where
  searched : ∀ Query : StdString, ∃ Results,
    searchCards toLower order table Query = some Results ∧
      Results.Perm ((((testCards k).zipIdx 1).map fun entry =>
          (⟨entry.1, Int32.ofNat entry.2⟩ : IndexedCard)).filter
        fun card => decide (Matches toLower Query.bytes card.toCard)) ∧
      Results.Pairwise fun a b => a.title ≤ b.title
  read : ∀ (env : Environment) (ID : Int32), env.failure = none →
    getCard env table ID =
      if 1 ≤ ID.toInt ∧ ID.toInt ≤ k then .ok ⟨testCard (ID.toInt.toNat - 1), ID⟩
      else .error "No row to get a column from. executeStep() was not called, or returned false."

theorem testCards_fits {k : Nat} (hk : k < 2 ^ 31) {card : Card} (h : card ∈ testCards k) :
    card.Fits := by
  obtain ⟨i, hi, rfl⟩ := List.mem_map.mp h
  have hlt := List.mem_range.mp hi
  exact testCard_fits (by omega)

theorem length_testCards (k : Nat) : (testCards k).length = k := by
  rw [testCards, List.length_map, List.length_range]

/-- The program shows and opens the cards of the deck that the table keeps. -/
theorem showsTestCards_of_keeps (toLower : Text → Text) (order : TitleOrder) {table : CardsTable}
    {k : Nat} (hk : k < 2 ^ 31) (h : Keeps table (Deck.ofCards (testCards k))) :
    ShowsTestCards toLower order table k := by
  have hlength : (testCards k).length < 2 ^ 31 := by
    rw [length_testCards]
    exact hk
  refine ⟨?_, ?_⟩
  · intro Query
    refine ⟨_, searchCards_eq Query, ?_⟩
    rw [← Deck.ofCards_cards hlength]
    exact found_keeps h toLower order Query.bytes
  · intro env ID henv
    rw [getCard_keeps h, henv, Deck.select_ofCards hlength, getElem?_testCards]
    by_cases hpos : 1 ≤ ID.toInt
    · by_cases hle : ID.toInt ≤ k
      · rw [if_pos hpos, if_pos (by omega), if_pos ⟨hpos, hle⟩]
      · rw [if_pos hpos, if_neg (by omega), if_neg (fun h => hle h.2)]
    · rw [if_neg hpos, if_neg (fun h => hpos h.1)]

/-- Whatever happens in any number of starts, the one `INSERT` of the loop numbers the cards that
are in the file then, and the program shows and opens these. -/
theorem starts_populate (toLower : Text → Text) (order : TitleOrder) (hT : 1 ≤ TotalCards)
    (hfit : TotalCards < 2 ^ 31) (_hC : 1 ≤ CommitEvery)
    {starts : List (Call → Option Exception)} {inserts : List (Environment × Card)}
    (hfile : starts.foldl (startOn TotalCards CommitEvery) none = some (inserts.map Prod.snd))
    (henv : ∀ entry ∈ inserts, entry.1.stepError = none) (env : Environment) {db : CardsHandle}
    (hempty : db.content = KeyedTable.empty) :
    ∃ k, AtBatch TotalCards CommitEvery k ∧ inserts.map Prod.snd = testCards k ∧
      (insertAll inserts { query := insertInto env, bindings := {} } db).result = .ok () ∧
      ShowsTestCards toLower order
        (insertAll inserts { query := insertInto env, bindings := {} } db).handle.content k := by
  obtain ⟨k, hbatch, hcards⟩ := atBatch_of_starts hT hfile
  have hk : k < 2 ^ 31 := Nat.lt_of_le_of_lt hbatch.le hfit
  have hfits : ∀ entry ∈ inserts, entry.2.Fits := by
    intro entry hentry
    apply testCards_fits hk
    rw [← hcards]
    exact List.mem_map_of_mem hentry
  have hroom : ([] ++ inserts.map Prod.snd).length < 2 ^ 31 := by
    rw [List.nil_append, hcards, length_testCards]
    exact hk
  have hnew : Keeps db.content (Deck.ofCards []) := by
    rw [hempty]
    exact keeps_new
  have hkept := insertAll_keeps henv hfits hroom env {} hnew
  rw [List.nil_append, hcards] at hkept
  obtain ⟨hresult, hkeeps⟩ := hkept
  exact ⟨k, hbatch, hcards, hresult, showsTestCards_of_keeps toLower order hk hkeeps⟩

/-- One card is left, and its insertion finds a random ID that is not needed. -/
theorem starts_populate_after_failure :
    ∃ k, AtBatch 2 1 k ∧ [testCard 0] = testCards k ∧
      (insertAll [({ pickedID := 7 }, testCard 0)] { query := insertInto {}, bindings := {} }
        ⟨KeyedTable.empty, .ok, 0⟩).result = .ok () ∧
      ShowsTestCards asciiLower TitleOrder.stable
        (insertAll [({ pickedID := 7 }, testCard 0)] { query := insertInto {}, bindings := {} }
          ⟨KeyedTable.empty, .ok, 0⟩).handle.content k := by
  have hfile : [failsAt (.insert 1) "disk I/O error", undisturbed].foldl (startOn 2 1) none =
      some (([({ pickedID := 7 }, testCard 0)] : List (Environment × Card)).map Prod.snd) := by
    rw [foldl_startOn (by decide)]
    rfl
  exact starts_populate asciiLower TitleOrder.stable (by decide) (by decide) (by decide) hfile
    (by simp) {} rfl

end Setup

end Unotu.Cards
