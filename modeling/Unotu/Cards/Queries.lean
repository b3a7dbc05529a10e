import Unotu.Cards.Search
import Unotu.Cards.Statement
import Unotu.Library.Simulation

/-!
# The statements behind the cards

The functions of `data.cpp` down to their statements: prepared, bound, and stepped or executed.
Each does what the function on the table does, and a search that fails on its way through
the rows returns none of them.
-/

set_option autoImplicit false

namespace Unotu.Cards.Sqlite

/-- The parameters of the queries; one that is not bound is NULL. -/
structure Bindings where
  ID : Option Int32 := none
  Title : Option StoredText := none
  Content : Option StoredText := none

abbrev CardsHandle := Handle CardsTable

abbrev CardsStatement (ρ : Type) := Statement CardsTable Bindings ρ

def setID (Index : Int32) (b : Bindings) : Except Exception Bindings :=
  .ok { b with ID := some Index }

def setTitle (Title : Text) (b : Bindings) : Except Exception Bindings :=
  (bindText Title).map fun text => { b with Title := some text }

def setContent (Content : Text) (b : Bindings) : Except Exception Bindings :=
  (bindText Content).map fun text => { b with Content := some text }

/-- The next call, unless this one has thrown. -/
def Called.andThen {σ β ρ α γ : Type} (c : Called σ β ρ α)
    (next : Statement σ β ρ → Handle σ → α → Called σ β ρ γ) : Called σ β ρ γ :=
  match c.result with
  | .ok a => next c.statement c.handle a
  | .error why => ⟨c.statement, c.handle, .error why⟩

/-! ## The queries as the engine executes them -/

def prepare {ρ : Type} (env : Environment) (query : Query CardsTable Bindings ρ) :
    Except Exception (Query CardsTable Bindings ρ) :=
  (raised env.prepareError).map fun _ => query

/-- A statement is prepared and used, and then goes out of scope. -/
def attempt {ρ α : Type} (prepare : Except Exception (Query CardsTable Bindings ρ))
    (db : CardsHandle) (calls : CardsStatement ρ → CardsHandle → Called CardsTable Bindings ρ α) :
    CardsHandle × Except Exception α :=
  match prepare with
  | .error why => ({ db with errcode := .error why }, .error why)
  | .ok query =>
    let called := calls { query, bindings := {} } db
    (called.handle, called.result)

/-- `SELECT ID, Title, Content FROM cards ORDER BY Title`; the step that fails comes after
the rows that were `delivered`. -/
def selectAll (env : Environment) (order : TitleOrder) (delivered : Nat) :
    Query CardsTable Bindings (Int64 × CardRow) where
  columnCount := 3
  execute table _ :=
    match env.stepError with
    | some why => ((order.select table).take delivered, .failed why)
    | none => (order.select table, .done table none)

/-- `SELECT Title, Content FROM cards WHERE ( ID = :ID )` -/
def selectByID (env : Environment) : Query CardsTable Bindings CardRow where
  columnCount := 2
  execute table b :=
    match env.stepError with
    | some why => ([], .failed why)
    | none => ((b.ID.bind fun ID => table.select ID.toInt64).toList, .done table none)

/-- `INSERT INTO cards ( Title, Content ) VALUES ( :Title, :Content )` -/
def insertInto (env : Environment) : Query CardsTable Bindings CardRow where
  columnCount := 0
  execute table b := ([],
    match env.stepError with
    | some why => .failed why
    | none =>
      if h : table.Has (newID env table) then .failed "database or disk is full"
      else .done (table.insert (newID env table) ⟨b.Title, b.Content⟩ h) (some 1))

/-- `UPDATE cards SET Title = :Title, Content = :Content WHERE ( ID = :ID )` -/
def updateByID (env : Environment) : Query CardsTable Bindings CardRow where
  columnCount := 0
  execute table b := ([],
    match env.stepError, b.ID with
    | some why, _ => .failed why
    | none, none => .done table (some 0)
    | none, some ID =>
      .done (table.update ID.toInt64 ⟨b.Title, b.Content⟩) (some (table.matching ID.toInt64)))

/-- `DELETE FROM cards WHERE (ID = :ID)` -/
def deleteByID (env : Environment) : Query CardsTable Bindings CardRow where
  columnCount := 0
  execute table b := ([],
    match env.stepError, b.ID with
    | some why, _ => .failed why
    | none, none => .done table (some 0)
    | none, some ID => .done (table.delete ID.toInt64) (some (table.matching ID.toInt64)))

/-! ## Searching -/

/-- The card that the body of both loops builds from the columns. -/
def readIndexedCard (DQuery : CardsStatement (Int64 × CardRow)) :
    Except Exception IndexedCard := do
  let ID ← DQuery.getColumn 0
  let Title ← DQuery.getColumn 1
  let Content ← DQuery.getColumn 2
  .ok ⟨⟨getText (Title.bind (·.2.title)), getText (Content.bind (·.2.content))⟩,
    (ID.map (getInt ·.1)).getD 0⟩

/-- `while( DQuery.executeStep() )`, for at most `fuel` rounds; `none` is a loop that goes on. -/
def searchLoop (keep : IndexedCard → Bool) :
    Nat → CardsStatement (Int64 × CardRow) → CardsHandle → List IndexedCard →
      Option (CardsHandle × Except Exception (List IndexedCard))
  | 0, _, _, _ => none
  | fuel + 1, DQuery, db, Results =>
    let stepped := DQuery.executeStep db
    match stepped.result with
    | .error why => some (stepped.handle, .error why)
    | .ok false => some (stepped.handle, .ok Results)
    | .ok true =>
      match readIndexedCard stepped.statement with
      | .error why => some (stepped.handle, .error why)
      | .ok Current =>
        searchLoop keep fuel stepped.statement stepped.handle
          (if keep Current then Results ++ [Current] else Results)

def searchCards (toLower : Text → Text)
    (prepare : Except Exception (Query CardsTable Bindings (Int64 × CardRow))) (fuel : Nat)
    (db : CardsHandle) (Query : StdString) :
    Option (CardsHandle × Except Exception (List IndexedCard)) :=
  match splitSearchQuery Query with
  | none => some (db, .error "basic_string::substr")
  | some SplitQuery =>
    match prepare with
    | .error why => some ({ db with errcode := .error why }, .error why)
    | .ok query =>
      if SplitQuery.length = 0 then
        searchLoop (fun _ => true) fuel { query, bindings := {} } db []
      else
        searchLoop (fun Current => matchesQueries toLower Current.toCard SplitQuery) fuel
          { query, bindings := {} } db []

/-! ## Reading and writing one card -/

def getCard (env : Environment) (db : CardsHandle) (Index : Int32) :
    CardsHandle × Except Exception IndexedCard :=
  attempt (prepare env (selectByID env)) db fun Query db =>
    (Query.bind db (setID Index)).andThen fun Query db _ =>
      -- the result of the step is not looked at
      (Query.executeStep db).andThen fun Query db _ =>
        ⟨Query, db, do
          let Title ← Query.getColumn 0
          let Content ← Query.getColumn 1
          .ok ⟨⟨getText (Title.bind (·.title)), getText (Content.bind (·.content))⟩, Index⟩⟩

def addCard (env : Environment) (db : CardsHandle) (card : Card) : CardsHandle × Done Unit :=
  match attempt (prepare env (insertInto env)) db fun Query db =>
      (Query.bind db (setTitle card.title)).andThen fun Query db _ =>
        (Query.bind db (setContent card.content)).andThen fun Query db _ => Query.exec db with
  | (db, .ok _) => (db, ⟨db.content, (), []⟩)
  | (db, .error why) =>
    (db, ⟨db.content, (), ["New card insertion failed, reason: " ++ why ++ "\n"]⟩)

def replaceCard (env : Environment) (db : CardsHandle) (card : IndexedCard) :
    CardsHandle × Done Bool :=
  match attempt (prepare env (updateByID env)) db fun Query db =>
      (Query.bind db (setID card.id)).andThen fun Query db _ =>
        (Query.bind db (setTitle card.title)).andThen fun Query db _ =>
          (Query.bind db (setContent card.content)).andThen fun Query db _ => Query.exec db with
  | (db, .ok _) => (db, ⟨db.content, true, []⟩)
  | (db, .error why) =>
    (db, ⟨db.content, false,
      ["Replacement of card ID " ++ showInt card.id ++ " failed: " ++ why ++ "\n"]⟩)

def removeCard (env : Environment) (db : CardsHandle) (Index : Int32) :
    CardsHandle × Done Bool :=
  match attempt (prepare env (deleteByID env)) db fun Query db =>
      (Query.bind db (setID Index)).andThen fun Query db _ => Query.exec db with
  | (db, .ok changes) => (db, ⟨db.content, decide (changes > 0), []⟩)
  | (db, .error why) =>
    (db, ⟨db.content, false,
      ["Removal of card ID " ++ showInt Index ++ " failed: " ++ why ++ "\n"]⟩)

/-! ## The loops over the rows -/

section Searching

variable {s : CardsStatement (Int64 × CardRow)} {row : Int64 × CardRow}
  {rows rest : List (Int64 × CardRow)} {ending : Ending CardsTable}

/-- What an execution that is stepped through to its end leaves, with the value on success. -/
def Ending.outcome {α : Type} (ending : Ending CardsTable) (db : CardsHandle) (a : α) :
    CardsHandle × Except Exception α :=
  match ending with
  | .done content changes => (⟨content, .done, changes.getD db.changes⟩, .ok a)
  | .failed why => (⟨db.content, .error why, db.changes⟩, .error why)

theorem readIndexedCard_atRow (hcolumns : s.query.columnCount = 3) :
    readIndexedCard (s.atRow row rest ending) = .ok (readRow row) := by
  have hcolumn : ∀ aIndex : Int, 0 ≤ aIndex → aIndex < 3 →
      (s.atRow row rest ending).getColumn aIndex = .ok (some row) := by
    intro aIndex hle hlt
    unfold Statement.getColumn Statement.atRow
    rw [if_neg (by simp), if_neg (by simp only [hcolumns]; omega)]
    rfl
  simp only [readIndexedCard, hcolumn 0 (by omega) (by omega), hcolumn 1 (by omega) (by omega),
    hcolumn 2 (by omega) (by omega)]
  rfl

/-- The loop keeps what passes of all rows, and loses everything when the execution fails. -/
theorem searchLoop_eq (keep : IndexedCard → Bool) (hcolumns : s.query.columnCount = 3)
    (hdone : s.mbDone = false) {db : CardsHandle} (hpending : s.pending db = (rows, ending))
    {fuel : Nat} (hfuel : rows.length < fuel) (Results : List IndexedCard) :
    searchLoop keep fuel s db Results =
      some (ending.outcome db (Results ++ (rows.map readRow).filter keep)) := by
  induction rows generalizing s db fuel Results with
  | nil =>
    obtain ⟨fuel, rfl⟩ := Nat.exists_eq_add_of_lt hfuel
    have hstep := Statement.executeStep_executesStep hdone db
    generalize hcalled : s.executeStep db = called at hstep
    cases hstep with
    | row hother => cases hpending.symm.trans hother
    | done hother =>
      cases hpending.symm.trans hother
      simp [searchLoop, hcalled, Ending.outcome]
    | failed hother =>
      cases hpending.symm.trans hother
      simp [searchLoop, hcalled, Ending.outcome]
  | cons row rows ih =>
    cases fuel with
    | zero => cases hfuel
    | succ fuel =>
      have hstep := Statement.executeStep_executesStep hdone db
      generalize hcalled : s.executeStep db = called at hstep
      cases hstep with
      | done hother => cases hpending.symm.trans hother
      | failed hother => cases hpending.symm.trans hother
      | row hother =>
        cases hpending.symm.trans hother
        simp only [searchLoop, hcalled, readIndexedCard_atRow hcolumns]
        rw [ih (s := s.atRow row rows ending) hcolumns rfl rfl (Nat.lt_of_succ_lt_succ hfuel)]
        rw [List.map_cons, List.filter_cons]
        cases hkeep : keep (readRow row) with
        | true => cases ending <;> simp [Ending.outcome]
        | false => cases ending <;> simp [Ending.outcome]

end Searching

open Words

theorem searchCards_outcome (toLower : Text → Text)
    (execute : CardsTable → Bindings → List (Int64 × CardRow) × Ending CardsTable)
    (db : CardsHandle) (Query : StdString) {fuel : Nat}
    (hfuel : (execute db.content {}).1.length < fuel) :
    searchCards toLower (.ok ⟨3, execute⟩) fuel db Query =
      some ((execute db.content {}).2.outcome db
        (((execute db.content {}).1.filter fun row =>
          decide (Matches toLower Query.bytes (readRow row).toCard)).map readRow)) := by
  have hkept : ∀ rows : List (Int64 × CardRow),
      (rows.map readRow).filter
          (fun Current => matchesQueries toLower Current.toCard (words space Query.bytes)) =
        (rows.filter fun row => decide (Matches toLower Query.bytes (readRow row).toCard)).map
          readRow := by
    intro rows
    rw [List.filter_map]
    congr 1
    apply List.filter_congr
    intro row _
    rw [Function.comp_apply, Bool.eq_iff_iff, matchesQueries_iff, decide_eq_true_iff,
      matches_iff_words]
  unfold searchCards
  rw [splitSearchQuery_eq]
  simp only
  split
  · rename_i hwords
    rw [searchLoop_eq _ rfl rfl rfl hfuel, List.nil_append, ← hkept]
    congr 2
    apply List.filter_congr
    intro card _
    rw [List.eq_nil_of_length_eq_zero hwords]
    rfl
  · rw [searchLoop_eq _ rfl rfl rfl hfuel, List.nil_append, ← hkept]

/-- However the query is executed, a search that succeeds has looked at every row of it, and one
whose execution fails after some rows throws them all away. -/
theorem searchCards_all_or_none (toLower : Text → Text)
    (execute : CardsTable → Bindings → List (Int64 × CardRow) × Ending CardsTable)
    (db : CardsHandle) (Query : StdString) {fuel : Nat}
    (hfuel : (execute db.content {}).1.length < fuel) :
    ∃ after result, searchCards toLower (.ok ⟨3, execute⟩) fuel db Query = some (after, result) ∧
      (∀ Results, result = .ok Results ↔
        (∃ content changes, (execute db.content {}).2 = .done content changes) ∧
          Results = ((execute db.content {}).1.filter fun row =>
            decide (Matches toLower Query.bytes (readRow row).toCard)).map readRow) ∧
      ∀ why, result = .error why ↔ (execute db.content {}).2 = .failed why := by
  refine ⟨_, _, searchCards_outcome toLower execute db Query hfuel, ?_, ?_⟩
  · intro Results
    cases (execute db.content {}).2 with
    | done content changes =>
      constructor
      · intro hresult
        cases hresult
        exact ⟨⟨content, changes, rfl⟩, rfl⟩
      · rintro ⟨-, rfl⟩
        rfl
    | failed why =>
      constructor
      · intro hresult
        cases hresult
      · rintro ⟨⟨_, _, hdone⟩, -⟩
        cases hdone
  · intro why
    cases (execute db.content {}).2 with
    | done content changes =>
      constructor
      · intro hresult
        cases hresult
      · intro hfailed
        cases hfailed
    | failed other =>
      constructor
      · intro hresult
        cases hresult
        rfl
      · intro hfailed
        cases hfailed
        rfl

/-- The title order has given its row when the database turns out to be busy. -/
theorem searchCards_all_or_none_busy :
    ∃ after, searchCards asciiLower
      (.ok ⟨3, fun table _ => (TitleOrder.stable.select table, .failed "database is busy")⟩) 2
      ⟨fizzTable, .ok, 0⟩ ⟨[], by decide⟩ = some (after, .error "database is busy") := by
  obtain ⟨after, result, hsearch, -, herror⟩ := @searchCards_all_or_none asciiLower
    (fun table _ => (TitleOrder.stable.select table, .failed "database is busy"))
    ⟨fizzTable, .ok, 0⟩ ⟨[], by decide⟩ 2 (by decide)
  exact ⟨after, by rw [hsearch, (herror _).mpr rfl]⟩

/-! ## What the functions do to the table -/

section Refinement

variable {ρ γ : Type} {query : Query CardsTable Bindings ρ} {b bound : Bindings}
  {set : Bindings → Except Exception Bindings} {why : Exception} {db : CardsHandle}

theorem bind_ok (h : set b = .ok bound)
    (next : CardsStatement ρ → CardsHandle → Unit → Called CardsTable Bindings ρ γ) :
    (Statement.bind { query, bindings := b } db set).andThen next =
      next { query, bindings := bound } { db with errcode := .ok } () := by
  simp only [Statement.bind, h, Called.andThen]

theorem bind_error (h : set b = .error why)
    (next : CardsStatement ρ → CardsHandle → Unit → Called CardsTable Bindings ρ γ) :
    (Statement.bind { query, bindings := b } db set).andThen next =
      ⟨{ query, bindings := b }, { db with errcode := .error why }, .error why⟩ := by
  simp only [Statement.bind, h, Called.andThen]

/-- Both texts are bound, and then the statement is executed. -/
def writeRow (query : Query CardsTable Bindings ρ) (b : Bindings) (db : CardsHandle)
    (Title Content : Text) : Called CardsTable Bindings ρ Nat :=
  (Statement.bind { query, bindings := b } db (setTitle Title)).andThen fun Query db _ =>
    (Query.bind db (setContent Content)).andThen fun Query db _ => Query.exec db

/-- A new content with a number of changes, or an exception and the content `before`. -/
inductive Wrote (before : CardsTable) : Except Exception (CardsTable × Nat) →
    CardsHandle × Except Exception Nat → Prop where
  | done {content : CardsTable} {changes : Nat} {handle : CardsHandle}
      (hcontent : handle.content = content) :
      Wrote before (.ok (content, changes)) (handle, .ok changes)
  | failed {why : Exception} {handle : CardsHandle} (hcontent : handle.content = before) :
      Wrote before (.error why) (handle, .error why)

/-- What an ending writes; `sqlite3_changes` still counts an earlier statement if it counts none. -/
def Ending.written (earlier : Nat) : Ending CardsTable → Except Exception (CardsTable × Nat)
  | .done content changes => .ok (content, changes.getD earlier)
  | .failed why => .error why

theorem exec_wrote (hrows : ∀ table, (query.execute table b).1 = []) (db : CardsHandle) :
    Wrote db.content ((query.execute db.content b).2.written db.changes)
      ((Statement.exec { query, bindings := b } db).handle,
        (Statement.exec { query, bindings := b } db).result) := by
  have hexec := Statement.exec_execs (s := { query, bindings := b }) rfl
    (Prod.ext (hrows db.content) rfl : _ = ([], (query.execute db.content b).2))
  generalize Statement.exec { query, bindings := b } db = called at hexec
  generalize (query.execute db.content b).2 = ending at hexec
  cases hexec with
  | done => exact .done rfl
  | failed => exact .failed rfl

theorem writeRow_wrote (hrows : ∀ table b, (query.execute table b).1 = []) (b : Bindings)
    (db : CardsHandle) (Title Content : Text) :
    Wrote db.content
      (do
        let title ← bindText Title
        let content ← bindText Content
        (query.execute db.content ⟨b.ID, some title, some content⟩).2.written db.changes)
      ((writeRow query b db Title Content).handle, (writeRow query b db Title Content).result) := by
  unfold writeRow
  cases htitle : bindText Title with
  | error why =>
    rw [bind_error (by rw [setTitle, htitle]; rfl)]
    exact .failed rfl
  | ok title =>
    rw [bind_ok (by rw [setTitle, htitle]; rfl)]
    cases hcontent : bindText Content with
    | error why =>
      rw [bind_error (by rw [setContent, hcontent]; rfl)]
      exact .failed rfl
    | ok content =>
      rw [bind_ok (by rw [setContent, hcontent]; rfl)]
      exact exec_wrote (fun table => hrows table _) { db with errcode := .ok }

theorem attempt_wrote {env : Environment} {spec : Except Exception (CardsTable × Nat)}
    {calls : CardsStatement ρ → CardsHandle → Called CardsTable Bindings ρ Nat}
    (h : Wrote db.content spec
      ((calls { query, bindings := {} } db).handle, (calls { query, bindings := {} } db).result)) :
    Wrote db.content (do raised env.prepareError; spec) (attempt (prepare env query) db calls) := by
  unfold attempt prepare
  cases env.prepareError with
  | none => exact h
  | some why => exact .failed rfl

variable (env : Environment) (db : CardsHandle)

/-- Both texts are bound between the preparation and the step. -/
theorem boundRow_bind {α : Type} (Title Content : Text) {next : CardRow → Except Exception α}
    {execute : StoredText → StoredText → Except Exception α}
    (hexecute : ∀ title content, execute title content =
      (do
        raised env.stepError
        next ⟨some title, some content⟩)) :
    (do
      let row ← boundRow env Title Content
      next row) =
      (do
        raised env.prepareError
        let title ← bindText Title
        let content ← bindText Content
        execute title content) := by
  unfold boundRow
  simp only [hexecute]
  cases env.prepareError with
  | some why => rfl
  | none =>
    cases bindText Title with
    | error why => rfl
    | ok title =>
      cases bindText Content with
      | error why => rfl
      | ok content =>
        cases env.stepError with
        | some why => rfl
        | none => rfl

theorem insertInto_written (table : CardsTable) (earlier : Nat) (title content : StoredText) :
    ((insertInto env).execute table ⟨none, some title, some content⟩).2.written earlier =
      (do
        raised env.stepError
        let after ← (if h : table.Has (newID env table) then .error "database or disk is full"
          else .ok (table.insert (newID env table) ⟨some title, some content⟩ h) :
          Except Exception CardsTable)
        .ok (after, 1)) := by
  unfold insertInto
  simp only
  cases env.stepError with
  | some why => rfl
  | none =>
    by_cases hhas : table.Has (newID env table)
    · rw [dif_pos hhas, dif_pos hhas]
      rfl
    · rw [dif_neg hhas, dif_neg hhas]
      rfl

theorem updateByID_written (table : CardsTable) (earlier : Nat) (ID : Int32)
    (title content : StoredText) :
    ((updateByID env).execute table ⟨some ID, some title, some content⟩).2.written earlier =
      (do
        raised env.stepError
        .ok (table.update ID.toInt64 ⟨some title, some content⟩, table.matching ID.toInt64)) := by
  unfold updateByID
  simp only
  cases env.stepError with
  | some why => rfl
  | none => rfl

theorem deleteByID_written (table : CardsTable) (earlier : Nat) (ID : Int32) :
    ((deleteByID env).execute table ⟨some ID, none, none⟩).2.written earlier =
      (do
        raised env.stepError
        .ok (table.delete ID.toInt64, table.matching ID.toInt64)) := by
  unfold deleteByID
  simp only
  cases env.stepError with
  | some why => rfl
  | none => rfl

theorem insert_wrote (Title Content : Text) :
    Wrote db.content
      (do
        let table ← execInsert env db.content Title Content
        .ok (table, 1))
      (attempt (prepare env (insertInto env)) db fun Query db =>
        (Query.bind db (setTitle Title)).andThen fun Query db _ =>
          (Query.bind db (setContent Content)).andThen fun Query db _ => Query.exec db) := by
  unfold execInsert
  rw [bind_assoc, boundRow_bind env Title Content (insertInto_written env db.content db.changes)]
  exact attempt_wrote (writeRow_wrote (fun _ _ => rfl) {} db Title Content)

theorem update_wrote (ID : Int32) (Title Content : Text) :
    Wrote db.content (execUpdate env db.content ID Title Content)
      (attempt (prepare env (updateByID env)) db fun Query db =>
        (Query.bind db (setID ID)).andThen fun Query db _ =>
          (Query.bind db (setTitle Title)).andThen fun Query db _ =>
            (Query.bind db (setContent Content)).andThen fun Query db _ => Query.exec db) := by
  unfold execUpdate
  rw [boundRow_bind env Title Content (updateByID_written env db.content db.changes ID)]
  exact attempt_wrote (writeRow_wrote (fun _ _ => rfl) ⟨some ID, none, none⟩
    { db with errcode := .ok } Title Content)

theorem delete_wrote (ID : Int32) :
    Wrote db.content (execDelete env db.content ID)
      (attempt (prepare env (deleteByID env)) db fun Query db =>
        (Query.bind db (setID ID)).andThen fun Query db _ => Query.exec db) := by
  unfold execDelete
  rw [← deleteByID_written env db.content db.changes ID]
  exact attempt_wrote (exec_wrote (fun _ => rfl) { db with errcode := .ok })

/-- What a function makes of the attempt is what it makes of the call on the table. -/
theorem Wrote.report {before : CardsTable} {spec : Except Exception (CardsTable × Nat)}
    {attempted : CardsHandle × Except Exception Nat} {α : Type} (result : Nat → α) (failed : α)
    (line : Exception → String) : Wrote before spec attempted →
    (match attempted with
      | (db, .ok changes) => (db, (⟨db.content, result changes, []⟩ : Done α))
      | (db, .error why) => (db, ⟨db.content, failed, [line why]⟩)).2 =
      match spec with
      | .ok (table, changes) => ⟨table, result changes, []⟩
      | .error why => ⟨before, failed, [line why]⟩ := by
  intro h
  cases h with
  | done hcontent => simp only [hcontent]
  | failed hcontent => simp only [hcontent]

theorem addCard_refines (card : Card) :
    (addCard env db card).2 = Cards.addCard env db.content card := by
  have hreport := Wrote.report (fun _ => ()) ()
    (fun why => "New card insertion failed, reason: " ++ why ++ "\n")
    (insert_wrote env db card.title card.content)
  unfold addCard Cards.addCard
  cases hexec : execInsert env db.content card.title card.content with
  | ok table =>
    rw [hexec] at hreport
    exact hreport
  | error why =>
    rw [hexec] at hreport
    exact hreport

theorem replaceCard_refines (card : IndexedCard) :
    (replaceCard env db card).2 = Cards.replaceCard env db.content card :=
  Wrote.report (fun _ => true) false
    (fun why => "Replacement of card ID " ++ showInt card.id ++ " failed: " ++ why ++ "\n")
    (update_wrote env db card.id card.title card.content)

theorem removeCard_refines (Index : Int32) :
    (removeCard env db Index).2 = Cards.removeCard env db.content Index :=
  Wrote.report (fun changes => decide (changes > 0)) false
    (fun why => "Removal of card ID " ++ showInt Index ++ " failed: " ++ why ++ "\n")
    (delete_wrote env db Index)

theorem getCard_refines (Index : Int32) :
    (getCard env db Index).1.content = db.content ∧
      (getCard env db Index).2 = Cards.getCard env db.content Index := by
  unfold getCard Cards.getCard selectCard attempt prepare
  cases env.prepareError with
  | some why => exact ⟨rfl, rfl⟩
  | none =>
    have hexecute : (selectByID env).execute db.content ⟨some Index, none, none⟩ =
        match env.stepError with
        | some why => ([], .failed why)
        | none => ((db.content.select Index.toInt64).toList, .done db.content none) := rfl
    have hstep := Statement.executeStep_executesStep
      (s := { query := selectByID env, bindings := ⟨some Index, none, none⟩ }) rfl
      { db with errcode := .ok }
    simp only [raised, Except.map]
    rw [bind_ok (by rw [setID])]
    generalize @Statement.executeStep CardsTable Bindings CardRow _ _ = called at hstep ⊢
    cases henv : env.stepError with
    | some why =>
      rw [henv] at hexecute
      cases hstep with
      | row hpending => cases hpending.symm.trans hexecute
      | done hpending => cases hpending.symm.trans hexecute
      | failed hpending =>
        cases hpending.symm.trans hexecute
        exact ⟨rfl, rfl⟩
    | none =>
      cases hselect : db.content.select Index.toInt64 with
      | none =>
        rw [henv, hselect] at hexecute
        cases hstep with
        | row hpending => cases hpending.symm.trans hexecute
        | failed hpending => cases hpending.symm.trans hexecute
        | done hpending =>
          cases hpending.symm.trans hexecute
          exact ⟨rfl, rfl⟩
      | some row =>
        rw [henv, hselect] at hexecute
        cases hstep with
        | done hpending => cases hpending.symm.trans hexecute
        | failed hpending => cases hpending.symm.trans hexecute
        | row hpending =>
          cases hpending.symm.trans hexecute
          exact ⟨rfl, rfl⟩

/-- A search that fails throws, however many rows it had been given. -/
theorem searchCards_refines (toLower : Text → Text) (order : TitleOrder) (delivered : Nat)
    (Query : StdString) :
    ∃ after, after.content = db.content ∧
      ∀ fuel, (order.select db.content).length < fuel →
        searchCards toLower (prepare env (selectAll env order delivered)) fuel db Query =
          some (after, do
            raised env.prepareError
            raised env.stepError
            .ok ((found toLower order db.content Query.bytes).map readRow)) := by
  unfold prepare
  cases env.prepareError with
  | some why =>
    refine ⟨{ db with errcode := .error why }, rfl, ?_⟩
    intro fuel _
    rw [searchCards, splitSearchQuery_eq]
    rfl
  | none =>
    have houtcome : ∀ fuel, ((selectAll env order delivered).execute db.content {}).1.length < fuel →
        searchCards toLower (.ok (selectAll env order delivered)) fuel db Query = _ :=
      fun _ => searchCards_outcome toLower (selectAll env order delivered).execute db Query
    unfold selectAll at houtcome ⊢
    simp only at houtcome
    cases hstep : env.stepError with
    | some why =>
      rw [hstep] at houtcome
      refine ⟨{ db with errcode := .error why }, rfl, ?_⟩
      intro fuel hfuel
      exact houtcome fuel (Nat.lt_of_le_of_lt (List.length_take_le' _ _) hfuel)
    | none =>
      rw [hstep] at houtcome
      exact ⟨⟨db.content, .done, db.changes⟩, rfl, houtcome⟩

end Refinement

/-! ## Any sequence of calls -/

section Calls

/-- A call with its own failures; a search whose step fails has been given some rows. -/
inductive Operation where
  | search (env : Environment) (delivered : Nat) (Query : StdString)
  | get (env : Environment) (Index : Int32)
  | add (env : Environment) (card : Card)
  | replace (env : Environment) (card : IndexedCard)
  | remove (env : Environment) (Index : Int32)

/-- What the caller sees of a call. -/
inductive Answer where
  | found (Results : Except Exception (List IndexedCard))
  | card (Result : Except Exception IndexedCard)
  | added (printed : List String)
  | succeeded (result : Bool) (printed : List String)

variable (toLower : Text → Text) (order : TitleOrder)

def onTable (table : CardsTable) : Operation → CardsTable × Answer
  | .search env _ Query =>
    match Cards.searchCards toLower order table Query with
    | some Results =>
      (table, .found do
        raised env.prepareError
        raised env.stepError
        .ok Results)
    | none => (table, .found (.error "basic_string::substr"))
  | .get env Index => (table, .card (Cards.getCard env table Index))
  | .add env card =>
    let done := Cards.addCard env table card
    (done.table, .added done.printed)
  | .replace env card =>
    let done := Cards.replaceCard env table card
    (done.table, .succeeded done.result done.printed)
  | .remove env Index =>
    let done := Cards.removeCard env table Index
    (done.table, .succeeded done.result done.printed)

/-- The error is a loop that has not ended after `fuel` rounds. -/
def onHandle (fuel : Nat) (db : CardsHandle) : Operation → Except Unit (CardsHandle × Answer)
  | .search env delivered Query =>
    match searchCards toLower (prepare env (selectAll env order delivered)) fuel db Query with
    | some (after, Results) => .ok (after, .found Results)
    | none => .error ()
  | .get env Index =>
    let (after, Result) := getCard env db Index
    .ok (after, .card Result)
  | .add env card =>
    let (after, done) := addCard env db card
    .ok (after, .added done.printed)
  | .replace env card =>
    let (after, done) := replaceCard env db card
    .ok (after, .succeeded done.result done.printed)
  | .remove env Index =>
    let (after, done) := removeCard env db Index
    .ok (after, .succeeded done.result done.printed)

theorem addCard_content (env : Environment) (db : CardsHandle) (card : Card) :
    (addCard env db card).1.content = (addCard env db card).2.table := by
  unfold addCard
  split <;> rfl

theorem replaceCard_content (env : Environment) (db : CardsHandle) (card : IndexedCard) :
    (replaceCard env db card).1.content = (replaceCard env db card).2.table := by
  unfold replaceCard
  split <;> rfl

theorem removeCard_content (env : Environment) (db : CardsHandle) (Index : Int32) :
    (removeCard env db Index).1.content = (removeCard env db Index).2.table := by
  unfold removeCard
  split <;> rfl

theorem onHandle_refines (db : CardsHandle) (operation : Operation) :
    ∃ bound after, after.content = (onTable toLower order db.content operation).1 ∧
      ∀ fuel, bound ≤ fuel → onHandle toLower order fuel db operation =
        .ok (after, (onTable toLower order db.content operation).2) := by
  cases operation with
  | search env delivered Query =>
    obtain ⟨after, hcontent, hloop⟩ := searchCards_refines env db toLower order delivered Query
    refine ⟨(order.select db.content).length + 1, after, ?_, ?_⟩
    · rw [onTable, searchCards_eq]
      exact hcontent
    · intro fuel hfuel
      rw [onTable, searchCards_eq, onHandle, hloop fuel hfuel]
  | get env Index =>
    obtain ⟨hcontent, hresult⟩ := getCard_refines env db Index
    refine ⟨0, (getCard env db Index).1, hcontent, ?_⟩
    intro fuel _
    rw [onTable, ← hresult]
    rfl
  | add env card =>
    refine ⟨0, (addCard env db card).1, ?_, ?_⟩
    · rw [addCard_content, addCard_refines]
      rfl
    · intro fuel _
      rw [onTable, ← addCard_refines]
      rfl
  | replace env card =>
    refine ⟨0, (replaceCard env db card).1, ?_, ?_⟩
    · rw [replaceCard_content, replaceCard_refines]
      rfl
    · intro fuel _
      rw [onTable, ← replaceCard_refines]
      rfl
  | remove env Index =>
    refine ⟨0, (removeCard env db Index).1, ?_, ?_⟩
    · rw [removeCard_content, removeCard_refines]
      rfl
    · intro fuel _
      rw [onTable, ← removeCard_refines]
      rfl

/-- Along any calls, failing ones among them, the functions on the prepared statements answer
what the functions on the table answer and leave the same table; every loop ends. -/
theorem run_onHandle (db : CardsHandle) (operations : List Operation) :
    ∃ bound after,
      after.content = (Simulation.meant (onTable toLower order) db.content operations).1 ∧
      ∀ fuel, bound ≤ fuel →
        Simulation.transcript (onHandle toLower order fuel) db operations =
          .ok (after, (Simulation.meant (onTable toLower order) db.content operations).2) := by
  induction operations generalizing db with
  | nil => exact ⟨0, db, rfl, fun _ _ => rfl⟩
  | cons operation operations ih =>
    obtain ⟨first, next, hnext, hstep⟩ := onHandle_refines toLower order db operation
    obtain ⟨rest, after, hafter, hrun⟩ := ih next
    rw [hnext] at hafter hrun
    refine ⟨max first rest, after, hafter, ?_⟩
    intro fuel hfuel
    exact Simulation.transcript_cons _ (hstep fuel (le_trans (le_max_left _ _) hfuel))
      (hrun fuel (le_trans (le_max_right _ _) hfuel))

end Calls

/-! ## One statement for many cards -/

section Reuse

/-- The body of the loop of `postsetup_database`. -/
def insertOnce (Query : CardsStatement CardRow) (db : CardsHandle) (card : Card) :
    Called CardsTable Bindings CardRow Unit :=
  (Query.bind db (setTitle card.title)).andThen fun Query db _ =>
    (Query.bind db (setContent card.content)).andThen fun Query db _ =>
      (Query.exec db).andThen fun Query db _ => Query.reset db

/-- The one `INSERT` for all cards, each executed in the surroundings that it finds. -/
def insertAll : List (Environment × Card) → CardsStatement CardRow → CardsHandle →
    Called CardsTable Bindings CardRow Unit
  | [], Query, db => ⟨Query, db, .ok ()⟩
  | (env, card) :: cards, Query, db =>
    (insertOnce { Query with query := insertInto env } db card).andThen fun Query db _ =>
      insertAll cards Query db

/-- A new statement for each card, up to the first that throws. -/
def insertEach : CardsTable → List (Environment × Card) → CardsTable × Except Exception Unit
  | table, [] => (table, .ok ())
  | table, (env, card) :: cards =>
    match execInsert env table card.title card.content with
    | .ok after => insertEach after cards
    | .error why => (table, .error why)

/-- The statement is there already. -/
def prepared (env : Environment) : Environment := { env with prepareError := none }

/-- After a card that was inserted the statement can be bound again. -/
inductive Inserted (env : Environment) (before : CardsTable) :
    Except Exception CardsTable → Called CardsTable Bindings CardRow Unit → Prop where
  | ok {table : CardsTable} {b : Bindings} {changes : Nat} :
      Inserted env before (.ok table)
        ⟨{ query := insertInto env, bindings := b }, ⟨table, .ok, changes⟩, .ok ()⟩
  | error {Query : CardsStatement CardRow} {why : Exception} {handle : CardsHandle}
      (hcontent : handle.content = before) :
      Inserted env before (.error why) ⟨Query, handle, .error why⟩

theorem insertOnce_inserted (env : Environment) (b : Bindings) (db : CardsHandle) (card : Card) :
    Inserted env db.content (execInsert (prepared env) db.content card.title card.content)
      (insertOnce { query := insertInto env, bindings := b } db card) := by
  have hID : newID (prepared env) db.content = newID env db.content := rfl
  unfold insertOnce execInsert boundRow
  rw [hID]
  simp only [prepared, raised, bind, Except.bind]
  cases htitle : bindText card.title with
  | error why =>
    rw [bind_error (by rw [setTitle, htitle]; rfl)]
    exact .error rfl
  | ok title =>
    rw [bind_ok (by rw [setTitle, htitle]; rfl)]
    cases hcontent : bindText card.content with
    | error why =>
      rw [bind_error (by rw [setContent, hcontent]; rfl)]
      exact .error rfl
    | ok content =>
      rw [bind_ok (by rw [setContent, hcontent]; rfl)]
      have hexec : Statement.Execs
          { query := insertInto env, bindings := ⟨b.ID, some title, some content⟩ }
          { db with errcode := .ok }
          (match env.stepError with
          | some why => .failed why
          | none =>
            if h : db.content.Has (newID env db.content) then .failed "database or disk is full"
            else .done (db.content.insert _ ⟨some title, some content⟩ h) (some 1)) _ :=
        Statement.exec_execs rfl (Prod.ext rfl rfl)
      generalize @Statement.exec CardsTable Bindings CardRow _ _ = called at hexec ⊢
      cases hstep : env.stepError with
      | some why =>
        rw [hstep] at hexec
        cases hexec
        exact .error rfl
      | none =>
        rw [hstep] at hexec
        simp only at hexec ⊢
        by_cases hhas : db.content.Has (newID env db.content)
        · rw [dif_pos hhas] at hexec ⊢
          cases hexec
          exact .error rfl
        · rw [dif_neg hhas] at hexec ⊢
          cases hexec
          exact .ok

/-- The one `INSERT` of the loop inserts the cards that a new statement for each would, in their
order, and both stop at the same card with the same exception. -/
theorem insertAll_eq_insertEach (cards : List (Environment × Card)) (env : Environment)
    (b : Bindings) (db : CardsHandle) :
    ((insertAll cards { query := insertInto env, bindings := b } db).handle.content,
        (insertAll cards { query := insertInto env, bindings := b } db).result) =
      insertEach db.content (cards.map fun (env, card) => (prepared env, card)) := by
  induction cards generalizing env b db with
  | nil => rfl
  | cons first cards ih =>
    obtain ⟨env', card⟩ := first
    have hfirst := insertOnce_inserted env' b db card
    rw [List.map_cons]
    unfold insertAll insertEach
    generalize insertOnce _ db card = called at hfirst ⊢
    cases hinsert : execInsert (prepared env') db.content card.title card.content with
    | ok table =>
      rw [hinsert] at hfirst
      cases hfirst with
      | ok => exact ih _ _ _
    | error why =>
      rw [hinsert] at hfirst
      cases hfirst with
      | error hcontent => exact Prod.ext hcontent rfl

end Reuse

end Unotu.Cards.Sqlite
