import Unotu.Cards.Text
import Unotu.Library.KeyedTable
import Mathlib.Data.List.Sort

/-!
# The cards table

`CREATE TABLE cards (ID INTEGER PRIMARY KEY, Title TEXT, Content TEXT)`: a table keyed by
64-bit IDs with two nullable text columns. A statement may throw, at its preparation, when
a text is bound or when it is executed; then it has changed nothing.
-/

set_option autoImplicit false

namespace Unotu.Cards

/-- What `what()` of a thrown `SQLite::Exception` says. -/
abbrev Exception := String

/-- The default of `SQLITE_MAX_LENGTH`. -/
def maxLength : Nat := 1000000000

structure StoredText where
  bytes : Text
  within : bytes.length ≤ maxLength
deriving DecidableEq

structure CardRow where
  title : Option StoredText
  content : Option StoredText
deriving DecidableEq

abbrev CardsTable := KeyedTable Int64 CardRow

/-- What the surroundings do to one statement: whether its preparation or its execution
fails, and the random ID that SQLite tries when the largest one is taken. -/
structure Environment where
  prepareError : Option Exception := none
  stepError : Option Exception := none
  pickedID : Int64 := 0

def raised : Option Exception → Except Exception Unit
  | none => .ok ()
  | some why => .error why

/-! ## Binding and reading columns -/

/-- The bytes that `sqlite3_bind_text` takes when the size is passed as an `int`: a negative
length means up to the first null. -/
def boundBytes (t : Text) : Text :=
  let length := Int32.ofNat t.length
  if length < 0 then cString t else t.take length.toNatClampNeg

/-- `Statement::bind` of a `std::string`. -/
def bindText (t : Text) : Except Exception StoredText :=
  if h : (boundBytes t).length ≤ maxLength then
    .ok ⟨boundBytes t, h⟩
  else
    .error "string or blob too big"

/-- `Column::getText`, read as a C string; NULL reads as the empty string. -/
def getText : Option StoredText → Text
  | none => []
  | some t => cString t.bytes

/-- `Column::getInt` keeps the lower 32 bits. -/
def getInt (ID : Int64) : Int32 := ID.toInt32

theorem boundBytes_of_lt {t : Text} (h : t.length < 2 ^ 31) : boundBytes t = t := by
  have hnonneg : ¬ Int32.ofNat t.length < 0 := by
    have hle := Int32.zero_le_ofNat_of_lt h
    rw [Int32.lt_iff_toInt_lt]
    rw [Int32.le_iff_toInt_le] at hle
    omega
  simp only [boundBytes, if_neg hnonneg, Int32.toNatClampNeg_ofNat_of_lt h, List.take_length]

theorem bindText_bytes_eq_iff {t : Text} {b : StoredText} (h : bindText t = .ok b) :
    b.bytes = t ↔ t.length < 2 ^ 31 := by
  unfold bindText at h
  split at h
  · cases h
    constructor
    · intro heq
      rename_i hle
      simp only at heq
      rw [heq, maxLength] at hle
      omega
    · intro hlt
      exact boundBytes_of_lt hlt
  · cases h

/-! ## Statements -/

/-- The row of a statement with `:Title` and `:Content`, when it can be prepared, bound and
executed. -/
def boundRow (env : Environment) (Title Content : Text) : Except Exception CardRow := do
  raised env.prepareError
  let title ← bindText Title
  let content ← bindText Content
  raised env.stepError
  .ok ⟨some title, some content⟩

/-- `UPDATE cards SET Title = :Title, Content = :Content WHERE ( ID = :ID )`, with the
number of changed rows. -/
def execUpdate (env : Environment) (table : CardsTable) (ID : Int32) (Title Content : Text) :
    Except Exception (CardsTable × Nat) := do
  let row ← boundRow env Title Content
  .ok (table.update ID.toInt64 row, table.matching ID.toInt64)

/-- `DELETE FROM cards WHERE (ID = :ID)`, with the number of changed rows. -/
def execDelete (env : Environment) (table : CardsTable) (ID : Int32) :
    Except Exception (CardsTable × Nat) := do
  raised env.prepareError
  raised env.stepError
  .ok (table.delete ID.toInt64, table.matching ID.toInt64)

/-- The ID of a new row: one above the largest, or a random one when that is taken. -/
def newID (env : Environment) (table : CardsTable) : Int64 :=
  match table.keys.max? with
  | none => 1
  | some largest => if largest < Int64.maxValue then largest + 1 else env.pickedID

/-- `INSERT INTO cards ( Title, Content ) VALUES ( :Title, :Content )`. -/
def execInsert (env : Environment) (table : CardsTable) (Title Content : Text) :
    Except Exception CardsTable := do
  let row ← boundRow env Title Content
  if h : table.Has (newID env table) then
    .error "database or disk is full"
  else
    .ok (table.insert (newID env table) row h)

/-- `SELECT Title, Content FROM cards WHERE ( ID = :ID )`: its row, if there is one. -/
def selectCard (env : Environment) (table : CardsTable) (ID : Int32) :
    Except Exception (Option CardRow) := do
  raised env.prepareError
  raised env.stepError
  .ok (table.select ID.toInt64)

/-! ### When a statement throws -/

def Environment.Fails (env : Environment) : Prop :=
  env.prepareError.isSome ∨ env.stepError.isSome

def RowThrows (env : Environment) (Title Content : Text) : Prop :=
  env.Fails ∨ maxLength < (boundBytes Title).length ∨ maxLength < (boundBytes Content).length

/-- The texts can be passed to SQLite with an `int` for their size. -/
def SizesFit (Title Content : Text) : Prop := Title.length < 2 ^ 31 ∧ Content.length < 2 ^ 31

theorem raised_cases (e : Option Exception) :
    e.isSome ∧ (∃ why, raised e = .error why) ∨ ¬ e.isSome ∧ raised e = .ok () := by
  cases e with
  | none => exact Or.inr ⟨by simp, rfl⟩
  | some why => exact Or.inl ⟨rfl, why, rfl⟩

theorem bindText_cases (t : Text) :
    maxLength < (boundBytes t).length ∧ (∃ why, bindText t = .error why) ∨
      ¬ maxLength < (boundBytes t).length ∧ ∃ b, bindText t = .ok b ∧ (b.bytes = t ↔ t.length < 2 ^ 31) := by
  cases h : bindText t with
  | ok b =>
    refine Or.inr ⟨?_, b, rfl, bindText_bytes_eq_iff h⟩
    intro hlt
    rw [bindText, dif_neg (by omega)] at h
    cases h
  | error why =>
    refine Or.inl ⟨?_, why, rfl⟩
    by_contra hle
    rw [bindText, dif_pos (by omega)] at h
    cases h

/-- Either nothing is stored, or the two texts are, in full exactly when their sizes fit. -/
theorem boundRow_cases (env : Environment) (Title Content : Text) :
    RowThrows env Title Content ∧ (∃ why, boundRow env Title Content = .error why) ∨
      ¬ RowThrows env Title Content ∧ ∃ t c, boundRow env Title Content = .ok ⟨some t, some c⟩ ∧
        (t.bytes = Title ∧ c.bytes = Content ↔ SizesFit Title Content) := by
  unfold RowThrows Environment.Fails boundRow
  rcases raised_cases env.prepareError with ⟨hp, why, hraised⟩ | ⟨hp, hraised⟩
  · exact Or.inl ⟨Or.inl (Or.inl hp), why, by rw [hraised]; rfl⟩
  · rcases bindText_cases Title with ⟨ht, why, hT⟩ | ⟨ht, t, hT, hTeq⟩
    · exact Or.inl ⟨Or.inr (Or.inl ht), why, by rw [hraised, hT]; rfl⟩
    · rcases bindText_cases Content with ⟨hc, why, hC⟩ | ⟨hc, c, hC, hCeq⟩
      · exact Or.inl ⟨Or.inr (Or.inr hc), why, by rw [hraised, hT, hC]; rfl⟩
      · rcases raised_cases env.stepError with ⟨hs, why, hstep⟩ | ⟨hs, hstep⟩
        · exact Or.inl ⟨Or.inl (Or.inr hs), why, by rw [hraised, hT, hC, hstep]; rfl⟩
        · refine Or.inr ⟨by tauto, t, c, by rw [hraised, hT, hC, hstep]; rfl, ?_⟩
          rw [hTeq, hCeq, SizesFit]

/-! ## ORDER BY Title -/

/-- NULL comes first, texts compare by their bytes. -/
def titleLe : Option StoredText → Option StoredText → Bool
  | none, _ => true
  | some _, none => false
  | some a, some b => decide (a.bytes ≤ b.bytes)

/-- The row order of `SELECT ID, Title, Content FROM cards ORDER BY Title`; rows with the
same title come in an order of the database's own. -/
structure TitleOrder where
  select : CardsTable → List (Int64 × CardRow)
  perm : ∀ table, (select table).Perm table.rows
  sorted : ∀ table, (select table).Pairwise fun a b => titleLe a.2.title b.2.title

theorem titleLe_trans {a b c : Option StoredText} (hab : titleLe a b) (hbc : titleLe b c) :
    titleLe a c := by
  cases a with
  | none => rfl
  | some a =>
    cases b with
    | none => simp [titleLe] at hab
    | some b =>
      cases c with
      | none => simp [titleLe] at hbc
      | some c =>
        simp only [titleLe, decide_eq_true_iff] at hab hbc ⊢
        exact List.le_trans hab hbc

theorem titleLe_total (a b : Option StoredText) : titleLe a b || titleLe b a := by
  cases a with
  | none => rfl
  | some a =>
    cases b with
    | none => rfl
    | some b => simpa [titleLe] using List.le_total a.bytes b.bytes

def RowLe (a b : Int64 × CardRow) : Prop := titleLe a.2.title b.2.title

instance : DecidableRel RowLe := fun _ _ => inferInstanceAs (Decidable (_ = true))

instance : IsTrans (Int64 × CardRow) RowLe := ⟨fun _ _ _ hab hbc => titleLe_trans hab hbc⟩

instance : Std.Total RowLe := ⟨fun a b => by
  simpa only [RowLe, Bool.or_eq_true] using titleLe_total a.2.title b.2.title⟩

/-- The order that a stable sort of the rows gives. -/
def TitleOrder.stable : TitleOrder where
  select table := table.rows.insertionSort RowLe
  perm table := List.perm_insertionSort RowLe table.rows
  sorted table := List.pairwise_insertionSort RowLe table.rows

end Unotu.Cards
