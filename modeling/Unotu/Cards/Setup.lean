import Unotu.Cards.Data
import Unotu.Library.Connection

/-!
# Setting up the database

`postsetup_database` creates the table and the test cards when the table does not exist.
Every call on the database may throw; the exception leaves the function through the
destructor of the `Transaction`, which rolls back what was not committed, and the program
exits.
-/

set_option autoImplicit false

namespace Unotu.Cards.Setup

/-- The content of `unotu.db3`: the rows of the cards table, if it exists. -/
abbrev Store := Option (List Card)

/-- `SQLite::Transaction`. -/
structure Transaction where
  mbCommited : Bool := false

/-- The calls that may throw, with the index of the loop where they are in it. -/
inductive Call where
  | openDatabase
  | tableExists
  | createTable
  | prepareInsert
  | insert (i : Nat)
  | commitAfter (i : Nat)
  | beginAfter (i : Nat)
  | lastCommit
  | countCards
deriving DecidableEq

structure State where
  database : Connection Store
  transaction : Option Transaction := none
  printed : List String := []

inductive Stop where
  | thrown (why : Exception)
  | nullDereference

def State.print (s : State) (line : String) : State := { s with printed := s.printed ++ [line] }

/-- The test cards have only ASCII characters. -/
def asciiText (s : String) : Text := s.toList.map Char.toUInt8

def testCard (i : Nat) : Card :=
  let Name := "Test Card #" ++ toString i
  let Content := Name ++ "\n"
  let Content := if i % 3 = 0 then Content ++ "Fizz" else Content
  let Content := if i % 5 = 0 then Content ++ "Buzz" else Content
  ⟨asciiText Name, asciiText Content⟩

def testCards (n : Nat) : List Card := (List.range n).map testCard

-- which calls throw
variable (failing : Call → Option Exception)

/-- A call that throws leaves the database as it was. -/
def exec (call : Call) (statement : Connection Store → Except Exception (Connection Store))
    (s : State) : Except (State × Stop) State :=
  match failing call with
  | some why => .error (s, .thrown why)
  | none =>
    match statement s.database with
    | .ok database => .ok { s with database }
    | .error why => .error (s, .thrown why)

/-- The destructor of the object that the `unique_ptr` holds. -/
def destroyTransaction (s : State) : State :=
  match s.transaction with
  | some ⟨false⟩ => { s with database := s.database.rollback, transaction := none }
  | _ => { s with transaction := none }

/-- The constructor, and the destruction of the previous object by the assignment. -/
def newTransaction (call : Call) (s : State) : Except (State × Stop) State := do
  let begun ← exec failing call Connection.beginTransaction s
  .ok { destroyTransaction begun with transaction := some {} }

/-- `Transaction::commit`. -/
def commitTransaction (call : Call) (s : State) : Except (State × Stop) State :=
  match s.transaction with
  | none => .error (s, .nullDereference)
  | some transaction =>
    if transaction.mbCommited then
      .error (s, .thrown "Transaction already committed.")
    else do
      let committed ← exec failing call Connection.commit s
      .ok { committed with transaction := some ⟨true⟩ }

def createTable (c : Connection Store) : Except Exception (Connection Store) :=
  .ok (c.write fun _ => some [])

def insertRow (card : Card) (c : Connection Store) : Except Exception (Connection Store) :=
  .ok (c.write (Option.map (· ++ [card])))

def progress (TotalCards i : Nat) : List String :=
  let ShowEvery := TotalCards / 100 + 1
  if i % ShowEvery = 0 then
    ["\r  Creating test cards: " ++ showInt (Int32.ofNat i + 1) ++ "/" ++
      showInt (Int32.ofNat TotalCards) ++ ".."]
  else []

/-- The body of the loop. -/
def insertCard (TotalCards CommitEvery : Nat) (s : State) (i : Nat) :
    Except (State × Stop) State := do
  let inserted ← exec failing (.insert i) (insertRow (testCard i))
    { s with printed := s.printed ++ progress TotalCards i }
  if i % CommitEvery = 0 then
    let committed ←
      if inserted.transaction.isSome then commitTransaction failing (.commitAfter i) inserted
      else .ok inserted
    newTransaction failing (.beginAfter i) committed
  else
    .ok inserted

def createCards (TotalCards CommitEvery : Nat) (s : State) : Except (State × Stop) State := do
  let created ← exec failing .createTable createTable
    (s.print "  'cards' table doesn't exist!\n")
  let prepared ← exec failing .prepareInsert .ok created
  let inserted ← (List.range TotalCards).foldlM (insertCard failing TotalCards CommitEvery) prepared
  let committed ← commitTransaction failing .lastCommit inserted
  .ok (destroyTransaction (committed.print ". Done.\n"))

def openCards (TotalCards CommitEvery : Nat) (s : State) : Except (State × Stop) State := do
  let opened ← exec failing .openDatabase .ok s
  let looked ← exec failing .tableExists .ok opened
  let ready ←
    if looked.database.current.isNone then createCards failing TotalCards CommitEvery looked
    else .ok looked
  let counted ← exec failing .countCards .ok ready
  let count := (counted.database.current.getD []).length
  .ok (counted.print ("  Total card count: " ++ showInt (Int32.ofNat count) ++ "\n"))

inductive Ending where
  | returned
  | exited
  | crashed
deriving DecidableEq

structure Finished where
  database : Connection Store
  ending : Ending
  printed : List String

def postsetupDatabase (TotalCards CommitEvery : Nat) (file : Store) : Finished :=
  match openCards failing TotalCards CommitEvery
      { database := ⟨file, none⟩, printed := ["Opening the database\n\x7b\n"] } with
  | .ok s => ⟨s.database, .returned, s.printed ++ ["\x7d\n"]⟩
  | .error (s, .thrown why) =>
    ⟨(destroyTransaction s).database, .exited,
      s.printed ++ ["  Exception: " ++ why ++ "\n", "\x7d\n"]⟩
  | .error (s, .nullDereference) => ⟨s.database, .crashed, s.printed⟩

end Unotu.Cards.Setup
