import Unotu.Cards.Data

/-!
# Prepared statements

`SQLite::Statement` keeps two flags beside the cursor of the engine: whether a row can be read,
and whether the execution is finished and needs a `reset`. The engine is seen as what one
execution of a compiled query yields: its rows, and then its end.
-/

set_option autoImplicit false

namespace Unotu.Cards.Sqlite

/-- The result codes that `Statement` tells apart. -/
inductive Code where
  | ok
  | row
  | done
  | misuse
  | error (why : Exception)
deriving DecidableEq

/-- How an execution ends: with a new content and a number of changes, if it is one that writes,
or with an error that changes nothing. -/
inductive Ending (σ : Type) where
  | done (after : σ) (changes : Option Nat)
  | failed (why : Exception)

/-- A compiled query: what an execution of it yields. -/
structure Query (σ β ρ : Type) where
  columnCount : Nat
  execute : σ → β → List ρ × Ending σ

/-- Where `sqlite3_step` has left the execution; one that has failed keeps its error. -/
inductive Cursor (σ ρ : Type) where
  | ready
  | atRow (row : ρ) (rest : List ρ) (ending : Ending σ)
  | halted (error : Option Exception)

/-- The handle of the database: its content, its last code, and `sqlite3_changes`. -/
structure Handle (σ : Type) where
  content : σ
  errcode : Code := .ok
  changes : Nat := 0

structure Statement (σ β ρ : Type) where
  query : Query σ β ρ
  bindings : β
  cursor : Cursor σ ρ := .ready
  mbHasRow : Bool := false
  mbDone : Bool := false

/-- What a call leaves behind; an exception leaves the objects there. -/
structure Called (σ β ρ α : Type) where
  statement : Statement σ β ρ
  handle : Handle σ
  result : Except Exception α

variable {σ β ρ : Type}

/-- `what()` of the exception for a code. -/
def Code.what : Code → Exception
  | .ok => "not an error"
  | .row => "another row available"
  | .done => "no more rows available"
  | .misuse => "bad parameter or other API misuse"
  | .error why => why

namespace Statement

/-- `sqlite3_step`; a halted execution starts again. -/
def sqlite3Step (s : Statement σ β ρ) (db : Handle σ) : Code × Statement σ β ρ × Handle σ :=
  let (rows, ending) := match s.cursor with
    | .atRow _ rest ending => (rest, ending)
    | .ready | .halted _ => s.query.execute db.content s.bindings
  match rows with
  | row :: rest => (.row, { s with cursor := .atRow row rest ending }, { db with errcode := .row })
  | [] =>
    match ending with
    | .done after changes =>
      (.done, { s with cursor := .halted none },
        { content := after, errcode := .done, changes := changes.getD db.changes })
    | .failed why =>
      (.error why, { s with cursor := .halted (some why) }, { db with errcode := .error why })

def tryExecuteStep (s : Statement σ β ρ) (db : Handle σ) : Code × Statement σ β ρ × Handle σ :=
  if s.mbDone = false then
    match s.sqlite3Step db with
    | (.row, s, db) => (.row, { s with mbHasRow := true }, db)
    | (.done, s, db) => (.done, { s with mbHasRow := false, mbDone := true }, db)
    | (ret, s, db) => (ret, { s with mbHasRow := false, mbDone := false }, db)
  else (.misuse, s, db)

/-- The exception of a step that gave neither a row nor the end. -/
def stepException (ret : Code) (db : Handle σ) : Exception :=
  if ret = db.errcode then ret.what else "Statement needs to be reseted"

def executeStep (s : Statement σ β ρ) (db : Handle σ) : Called σ β ρ Bool :=
  let (ret, s, db) := s.tryExecuteStep db
  if ret ≠ .row ∧ ret ≠ .done then ⟨s, db, .error (stepException ret db)⟩
  else ⟨s, db, .ok s.mbHasRow⟩

def exec (s : Statement σ β ρ) (db : Handle σ) : Called σ β ρ Nat :=
  let (ret, s, db) := s.tryExecuteStep db
  if ret ≠ .done then
    if ret = .row then ⟨s, db, .error "exec() does not expect results. Use executeStep."⟩
    else ⟨s, db, .error (stepException ret db)⟩
  else ⟨s, db, .ok db.changes⟩

/-- `sqlite3_reset` repeats the error of the last step. -/
def reset (s : Statement σ β ρ) (db : Handle σ) : Called σ β ρ Unit :=
  let s' := { s with mbHasRow := false, mbDone := false, cursor := .ready }
  match s.cursor with
  | .halted (some why) => ⟨s', { db with errcode := .error why }, .error why⟩
  | _ => ⟨s', { db with errcode := .ok }, .ok ()⟩

/-- `bind`, with the value's own check; a statement must be reset before it is bound again. -/
def bind (s : Statement σ β ρ) (db : Handle σ) (set : β → Except Exception β) :
    Called σ β ρ Unit :=
  match s.cursor with
  | .atRow _ _ _ | .halted _ => ⟨s, { db with errcode := .misuse }, .error Code.misuse.what⟩
  | .ready =>
    match set s.bindings with
    | .ok bindings => ⟨{ s with bindings }, { db with errcode := .ok }, .ok ()⟩
    | .error why => ⟨s, { db with errcode := .error why }, .error why⟩

/-- The row that a `Column` of the statement reads from; none reads as NULL. -/
def currentRow (s : Statement σ β ρ) : Option ρ :=
  match s.cursor with
  | .atRow row _ _ => some row
  | .ready | .halted _ => none

def getColumn (s : Statement σ β ρ) (aIndex : Int) : Except Exception (Option ρ) :=
  if s.mbHasRow = false then
    .error "No row to get a column from. executeStep() was not called, or returned false."
  else if aIndex < 0 ∨ (s.query.columnCount : Int) ≤ aIndex then
    .error "Column index out of range."
  else .ok s.currentRow

/-! ## What a step does -/

/-- What is left of an execution. -/
def pending (s : Statement σ β ρ) (db : Handle σ) : List ρ × Ending σ :=
  match s.cursor with
  | .atRow _ rest ending => (rest, ending)
  | .ready | .halted _ => s.query.execute db.content s.bindings

/-- The statement after a step that gave a row, the end, or an error. -/
def atRow (s : Statement σ β ρ) (row : ρ) (rest : List ρ) (ending : Ending σ) : Statement σ β ρ :=
  ⟨s.query, s.bindings, .atRow row rest ending, true, false⟩

def finished (s : Statement σ β ρ) : Statement σ β ρ :=
  ⟨s.query, s.bindings, .halted none, false, true⟩

def broken (s : Statement σ β ρ) (why : Exception) : Statement σ β ρ :=
  ⟨s.query, s.bindings, .halted (some why), false, false⟩

/-- The three ways of a step that reaches the engine. -/
inductive Steps (s : Statement σ β ρ) (db : Handle σ) :
    Code × Statement σ β ρ × Handle σ → Prop where
  | row {row : ρ} {rest : List ρ} {ending : Ending σ}
      (hpending : s.pending db = (row :: rest, ending)) :
      Steps s db (.row, s.atRow row rest ending, ⟨db.content, .row, db.changes⟩)
  | done {content : σ} {changes : Option Nat}
      (hpending : s.pending db = ([], .done content changes)) :
      Steps s db (.done, s.finished, ⟨content, .done, changes.getD db.changes⟩)
  | failed {why : Exception} (hpending : s.pending db = ([], .failed why)) :
      Steps s db (.error why, s.broken why, ⟨db.content, .error why, db.changes⟩)

theorem tryExecuteStep_steps {s : Statement σ β ρ} (hdone : s.mbDone = false) (db : Handle σ) :
    s.Steps db (s.tryExecuteStep db) := by
  have hcall : ∀ rows ending, s.pending db = (rows, ending) → s.sqlite3Step db =
      match rows with
      | row :: rest =>
        (.row, { s with cursor := .atRow row rest ending }, { db with errcode := .row })
      | [] =>
        match ending with
        | .done after changes =>
          (.done, { s with cursor := .halted none },
            { content := after, errcode := .done, changes := changes.getD db.changes })
        | .failed why =>
          (.error why, { s with cursor := .halted (some why) },
            { db with errcode := .error why }) := by
    intro rows ending hpending
    unfold sqlite3Step
    unfold pending at hpending
    rw [hpending]
  obtain ⟨⟨rows, ending⟩, hpending⟩ : ∃ left, s.pending db = left := ⟨_, rfl⟩
  have hstep := hcall rows ending hpending
  cases rows with
  | cons row rest =>
    simp only [tryExecuteStep, hdone, if_true, hstep]
    exact .row hpending
  | nil =>
    cases ending with
    | done after changes =>
      simp only [tryExecuteStep, hdone, if_true, hstep]
      exact .done hpending
    | failed why =>
      simp only [tryExecuteStep, hdone, if_true, hstep]
      exact .failed hpending

/-- `executeStep` of a statement that needs no `reset`. -/
inductive ExecutesStep (s : Statement σ β ρ) (db : Handle σ) : Called σ β ρ Bool → Prop where
  | row {row : ρ} {rest : List ρ} {ending : Ending σ}
      (hpending : s.pending db = (row :: rest, ending)) :
      ExecutesStep s db ⟨s.atRow row rest ending, ⟨db.content, .row, db.changes⟩, .ok true⟩
  | done {content : σ} {changes : Option Nat}
      (hpending : s.pending db = ([], .done content changes)) :
      ExecutesStep s db ⟨s.finished, ⟨content, .done, changes.getD db.changes⟩, .ok false⟩
  | failed {why : Exception} (hpending : s.pending db = ([], .failed why)) :
      ExecutesStep s db ⟨s.broken why, ⟨db.content, .error why, db.changes⟩, .error why⟩

theorem executeStep_executesStep {s : Statement σ β ρ} (hdone : s.mbDone = false)
    (db : Handle σ) : s.ExecutesStep db (s.executeStep db) := by
  have hsteps := tryExecuteStep_steps hdone db
  unfold executeStep
  generalize s.tryExecuteStep db = r at hsteps
  cases hsteps with
  | row hpending => exact .row hpending
  | done hpending => exact .done hpending
  | failed hpending => simpa [stepException, Code.what] using ExecutesStep.failed hpending

/-- `exec` of a statement whose execution gives no row. -/
inductive Execs (s : Statement σ β ρ) (db : Handle σ) : Ending σ → Called σ β ρ Nat → Prop where
  | done {content : σ} {changes : Option Nat} :
      Execs s db (.done content changes)
        ⟨s.finished, ⟨content, .done, changes.getD db.changes⟩, .ok (changes.getD db.changes)⟩
  | failed {why : Exception} :
      Execs s db (.failed why) ⟨s.broken why, ⟨db.content, .error why, db.changes⟩, .error why⟩

theorem exec_execs {s : Statement σ β ρ} (hdone : s.mbDone = false) {db : Handle σ}
    {ending : Ending σ} (hpending : s.pending db = ([], ending)) : s.Execs db ending (s.exec db) := by
  have hsteps := tryExecuteStep_steps hdone db
  unfold exec
  generalize s.tryExecuteStep db = r at hsteps
  cases hsteps with
  | row hother => cases hpending.symm.trans hother
  | done hother =>
    cases hpending.symm.trans hother
    exact .done
  | failed hother =>
    cases hpending.symm.trans hother
    simpa [stepException, Code.what] using Execs.failed

end Statement

end Unotu.Cards.Sqlite
