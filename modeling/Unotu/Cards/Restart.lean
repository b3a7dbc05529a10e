import Unotu.Cards.Setup
import Mathlib.Algebra.Group.Nat.Defs

/-!
# Restarting an interrupted setup

What a setup that is interrupted by an exception leaves in the file, and when a second,
undisturbed setup completes it. The first card is committed on its own and the later ones
in batches, so an interruption leaves the cards of the last commit; the restart sees the
table and adds nothing.
-/

set_option autoImplicit false

namespace Unotu.Cards.Setup

variable {failing : Call → Option Exception} {TotalCards CommitEvery : Nat} {s : State}

def undisturbed : Call → Option Exception := fun _ => none

def failsAt (failed : Call) (why : Exception) : Call → Option Exception :=
  fun call => if call = failed then some why else none

theorem failsAt_self (failed : Call) (why : Exception) : failsAt failed why failed = some why :=
  if_pos rfl

theorem failsAt_of_ne {failed call : Call} (why : Exception) (h : call ≠ failed) :
    failsAt failed why call = none := if_neg h

/-- The call is made by an undisturbed first setup. -/
def Occurs (TotalCards CommitEvery : Nat) : Call → Prop
  | .insert i => i < TotalCards
  | .commitAfter i => 0 < i ∧ i < TotalCards ∧ i % CommitEvery = 0
  | .beginAfter i => i < TotalCards ∧ i % CommitEvery = 0
  | _ => True

/-- The number of cards that are committed before iteration `i`. -/
def committedCount (CommitEvery : Nat) : Nat → Nat
  | 0 => 0
  | i + 1 => i / CommitEvery * CommitEvery + 1

/-- What a first setup that fails at this call leaves in the file. -/
def leftBy (TotalCards CommitEvery : Nat) : Call → Store
  | .openDatabase => none
  | .tableExists => none
  | .createTable => none
  | .prepareInsert => some []
  | .insert i => some (testCards (committedCount CommitEvery i))
  | .commitAfter i => some (testCards (committedCount CommitEvery i))
  | .beginAfter i => some (testCards (i + 1))
  | .lastCommit => some (testCards (committedCount CommitEvery TotalCards))
  | .countCards => some (testCards TotalCards)

/-- The failure comes before the table exists or when all cards are committed. -/
def Harmless (TotalCards CommitEvery : Nat) : Call → Prop
  | .openDatabase => True
  | .tableExists => True
  | .createTable => True
  | .prepareInsert => False
  | .insert _ => False
  | .commitAfter _ => False
  | .beginAfter i => i + 1 = TotalCards
  | .lastCommit => (TotalCards - 1) % CommitEvery = 0
  | .countCards => True

theorem testCards_succ (n : Nat) : testCards (n + 1) = testCards n ++ [testCard n] := by
  simp [testCards, List.range_succ]

theorem testCards_inj {m n : Nat} : testCards m = testCards n ↔ m = n := by
  constructor
  · intro h
    simpa [testCards] using congrArg List.length h
  · intro h
    rw [h]

theorem committedCount_le (CommitEvery i : Nat) : committedCount CommitEvery i ≤ i := by
  cases i with
  | zero => exact Nat.le_refl 0
  | succ i => exact Nat.succ_le_succ (Nat.div_mul_le_self i CommitEvery)

theorem committedCount_of_dvd {i : Nat} (h : i % CommitEvery = 0) :
    committedCount CommitEvery (i + 1) = i + 1 := by
  rw [committedCount, Nat.div_mul_cancel (Nat.dvd_of_mod_eq_zero h)]

theorem committedCount_of_not_dvd {i : Nat} (hpos : 0 < i) (h : i % CommitEvery ≠ 0) :
    committedCount CommitEvery (i + 1) = committedCount CommitEvery i := by
  obtain ⟨j, rfl⟩ := Nat.exists_eq_succ_of_ne_zero hpos.ne'
  have hdvd : ¬ CommitEvery ∣ j + 1 := fun hdvd => h (Nat.mod_eq_zero_of_dvd hdvd)
  rw [committedCount, committedCount, Nat.succ_div_of_not_dvd hdvd]

theorem leftBy_complete_iff (hT : 1 ≤ TotalCards) {call : Call}
    (hoccurs : Occurs TotalCards CommitEvery call) :
    leftBy TotalCards CommitEvery call = none ∨
        leftBy TotalCards CommitEvery call = some (testCards TotalCards) ↔
      Harmless TotalCards CommitEvery call := by
  cases call with
  | openDatabase => simp [leftBy, Harmless]
  | tableExists => simp [leftBy, Harmless]
  | createTable => simp [leftBy, Harmless]
  | countCards => simp [leftBy, Harmless]
  | prepareInsert =>
    have hne : ([] : List Card) ≠ testCards TotalCards := by
      intro h
      have := congrArg List.length h
      simp [testCards] at this
      omega
    simp [leftBy, Harmless, hne]
  | insert i =>
    have hle := committedCount_le CommitEvery i
    simp only [Occurs] at hoccurs
    simp only [leftBy, Harmless, reduceCtorEq, Option.some.injEq, testCards_inj, false_or, iff_false]
    omega
  | commitAfter i =>
    have hle := committedCount_le CommitEvery i
    simp only [Occurs] at hoccurs
    simp only [leftBy, Harmless, reduceCtorEq, Option.some.injEq, testCards_inj, false_or, iff_false]
    omega
  | beginAfter i => simp [leftBy, Harmless, testCards_inj]
  | lastCommit =>
    obtain ⟨n, rfl⟩ := Nat.exists_eq_add_of_le' hT
    simp only [leftBy, Harmless, reduceCtorEq, Option.some.injEq, testCards_inj, false_or,
      committedCount, Nat.add_right_cancel_iff, Nat.add_sub_cancel]
    have hsplit := Nat.div_add_mod' n CommitEvery
    omega

/-! ## One call -/

section Calls

variable {call : Call} {why : Exception} {db : Connection Store} {x w : Store}
  {transaction : Option Transaction} {printed : List String}

theorem exec_of_fails (h : failing call = some why)
    (statement : Connection Store → Except Exception (Connection Store)) (s : State) :
    exec failing call statement s = .error (s, .thrown why) := by
  simp only [exec, h]

theorem exec_of_ok (h : failing call = none)
    {statement : Connection Store → Except Exception (Connection Store)} {s : State}
    (hstatement : statement s.database = .ok db) :
    exec failing call statement s = .ok { s with database := db } := by
  simp only [exec, h, hstatement]

theorem newTransaction_idle (h : failing call = none) (htransaction : transaction ≠ some ⟨false⟩) :
    newTransaction failing call ⟨⟨x, none⟩, transaction, printed⟩ =
      .ok ⟨⟨x, some x⟩, some ⟨false⟩, printed⟩ := by
  have hbegin := exec_of_ok (s := ⟨⟨x, none⟩, transaction, printed⟩) h
    (Connection.beginTransaction_idle x)
  simp only [newTransaction, hbegin, bind, Except.bind]
  match transaction with
  | none => rfl
  | some ⟨true⟩ => rfl
  | some ⟨false⟩ => exact absurd rfl htransaction

theorem commitTransaction_open (h : failing call = none) :
    commitTransaction failing call ⟨⟨x, some w⟩, some ⟨false⟩, printed⟩ =
      .ok ⟨⟨w, none⟩, some ⟨true⟩, printed⟩ := by
  have hcommit := exec_of_ok (s := ⟨⟨x, some w⟩, some ⟨false⟩, printed⟩) h
    (Connection.commit_open x w)
  simp only [commitTransaction, Bool.false_eq_true, if_false, hcommit, bind, Except.bind]

/-- The exception leaves the function with this content in the file. -/
def Interrupted (why : Exception) (file : Store) (r : Except (State × Stop) State) : Prop :=
  ∃ t, r = .error (t, .thrown why) ∧ (destroyTransaction t).database.committed = file

theorem Interrupted.bind {file : Store} {r : Except (State × Stop) State} (h : Interrupted why file r)
    (rest : State → Except (State × Stop) State) : Interrupted why file (r >>= rest) := by
  obtain ⟨t, rfl, hfile⟩ := h
  exact ⟨t, rfl, hfile⟩

theorem destroyTransaction_committed (s : State) :
    (destroyTransaction s).database.committed = s.database.committed := by
  obtain ⟨database, transaction, printed⟩ := s
  match transaction with
  | none => rfl
  | some ⟨false⟩ => rfl
  | some ⟨true⟩ => rfl

/-- A call that throws leaves what was committed before it. -/
theorem interrupted_exec (h : failing call = some why)
    (statement : Connection Store → Except Exception (Connection Store)) (s : State) :
    Interrupted why s.database.committed (exec failing call statement s) :=
  ⟨s, exec_of_fails h statement s, destroyTransaction_committed s⟩

theorem interrupted_newTransaction (h : failing call = some why) (s : State) :
    Interrupted why s.database.committed (newTransaction failing call s) :=
  (interrupted_exec h Connection.beginTransaction s).bind _

theorem interrupted_commitTransaction (h : failing call = some why) :
    Interrupted why db.committed
      (commitTransaction failing call ⟨db, some ⟨false⟩, printed⟩) :=
  (interrupted_exec h Connection.commit ⟨db, some ⟨false⟩, printed⟩).bind _

end Calls

/-! ## One iteration -/

/-- The state before iteration `i`. -/
def atIteration (CommitEvery : Nat) (printed : List String) : Nat → State
  | 0 => ⟨⟨some [], none⟩, none, printed⟩
  | i + 1 => ⟨⟨some (testCards (committedCount CommitEvery (i + 1))), some (some (testCards (i + 1)))⟩,
      some ⟨false⟩, printed⟩

theorem atIteration_committed (CommitEvery : Nat) (printed : List String) (i : Nat) :
    (atIteration CommitEvery printed i).database.committed =
      some (testCards (committedCount CommitEvery i)) := by
  cases i with
  | zero => rfl
  | succ i => rfl

theorem insertCard_first (hinsert : failing (.insert 0) = none) (printed : List String) :
    insertCard failing TotalCards CommitEvery (atIteration CommitEvery printed 0) 0 =
      newTransaction failing (.beginAfter 0)
        ⟨⟨some (testCards 1), none⟩, none, printed ++ progress TotalCards 0⟩ := by
  simp only [insertCard, atIteration, exec, hinsert, insertRow, Connection.write_idle, bind,
    Except.bind, Nat.zero_mod, if_true, Option.isSome_none, Bool.false_eq_true, if_false]
  rfl

theorem insertCard_later {i : Nat} (hinsert : failing (.insert (i + 1)) = none)
    (printed : List String) :
    insertCard failing TotalCards CommitEvery (atIteration CommitEvery printed (i + 1)) (i + 1) =
      if (i + 1) % CommitEvery = 0 then
        commitTransaction failing (.commitAfter (i + 1))
            ⟨⟨some (testCards (committedCount CommitEvery (i + 1))), some (some (testCards (i + 2)))⟩,
              some ⟨false⟩, printed ++ progress TotalCards (i + 1)⟩ >>=
          newTransaction failing (.beginAfter (i + 1))
      else
        .ok ⟨⟨some (testCards (committedCount CommitEvery (i + 1))), some (some (testCards (i + 2)))⟩,
          some ⟨false⟩, printed ++ progress TotalCards (i + 1)⟩ := by
  simp only [insertCard, atIteration, exec, hinsert, insertRow, Connection.write_open, bind,
    Except.bind, Option.isSome_some, if_true, Option.map_some, ← testCards_succ]

/-- No call of iteration `i` throws. -/
def Passes (failing : Call → Option Exception) (i : Nat) : Prop :=
  failing (.insert i) = none ∧ failing (.commitAfter i) = none ∧ failing (.beginAfter i) = none

theorem insertCard_passes (TotalCards CommitEvery : Nat) {i : Nat} (h : Passes failing i) (printed : List String) :
    ∃ printed', insertCard failing TotalCards CommitEvery (atIteration CommitEvery printed i) i =
      .ok (atIteration CommitEvery printed' (i + 1)) := by
  obtain ⟨hinsert, hcommit, hbegin⟩ := h
  refine ⟨printed ++ progress TotalCards i, ?_⟩
  cases i with
  | zero =>
    rw [insertCard_first hinsert, newTransaction_idle hbegin (by simp), atIteration,
      committedCount_of_dvd (Nat.zero_mod _)]
  | succ i =>
    rw [insertCard_later hinsert]
    split
    · rename_i hdvd
      rw [commitTransaction_open hcommit, atIteration, committedCount_of_dvd hdvd]
      exact newTransaction_idle hbegin (by simp)
    · rename_i hdvd
      rw [atIteration, committedCount_of_not_dvd (Nat.succ_pos i) hdvd]

theorem insertCard_interrupted {call : Call} {why : Exception} {i : Nat} (hi : i < TotalCards)
    (hcall : call = .insert i ∨ call = .commitAfter i ∨ call = .beginAfter i)
    (hoccurs : Occurs TotalCards CommitEvery call) (printed : List String) :
    Interrupted why (leftBy TotalCards CommitEvery call)
      (insertCard (failsAt call why) TotalCards CommitEvery (atIteration CommitEvery printed i) i) := by
  have hfails := failsAt_self call why
  have hpass : ∀ other, other ≠ call → failsAt call why other = none :=
    fun other hne => failsAt_of_ne why hne
  rcases hcall with rfl | rfl | rfl
  · rw [leftBy, ← atIteration_committed CommitEvery printed i]
    exact (interrupted_exec hfails _ _).bind _
  · obtain ⟨hpos, -, hdvd⟩ := hoccurs
    obtain ⟨j, rfl⟩ := Nat.exists_eq_succ_of_ne_zero hpos.ne'
    rw [insertCard_later (hpass _ (by simp)), if_pos hdvd]
    exact (interrupted_commitTransaction hfails).bind _
  · cases i with
    | zero =>
      rw [insertCard_first (hpass _ (by simp))]
      exact interrupted_newTransaction hfails _
    | succ i =>
      rw [insertCard_later (hpass _ (by simp)), if_pos hoccurs.2,
        commitTransaction_open (hpass _ (by simp))]
      exact interrupted_newTransaction hfails _

/-! ## The loop -/

theorem insertCards_pass (TotalCards CommitEvery : Nat) {n : Nat} (h : ∀ i < n, Passes failing i) (printed : List String) :
    ∃ printed', (List.range n).foldlM (insertCard failing TotalCards CommitEvery)
      (atIteration CommitEvery printed 0) = .ok (atIteration CommitEvery printed' n) := by
  induction n with
  | zero => exact ⟨printed, rfl⟩
  | succ n ih =>
    obtain ⟨before, hbefore⟩ := ih fun i hi => h i (by omega)
    obtain ⟨after, hafter⟩ := insertCard_passes TotalCards CommitEvery (h n (by omega)) before
    refine ⟨after, ?_⟩
    rw [List.range_succ, List.foldlM_append, hbefore]
    simp only [bind, Except.bind, List.foldlM_cons, hafter, List.foldlM_nil]
    rfl

theorem range_split {i n : Nat} (h : i < n) : ∃ rest, List.range n = List.range i ++ i :: rest := by
  obtain ⟨k, rfl⟩ := Nat.exists_eq_add_of_lt h
  refine ⟨(List.range k).map (i + 1 + ·), ?_⟩
  rw [show i + k + 1 = (i + 1) + k by omega, List.range_add, List.range_succ]
  simp

theorem insertCards_interrupted {call : Call} {why : Exception} {i : Nat} (hi : i < TotalCards)
    (hcall : call = .insert i ∨ call = .commitAfter i ∨ call = .beginAfter i)
    (hoccurs : Occurs TotalCards CommitEvery call) (printed : List String) :
    Interrupted why (leftBy TotalCards CommitEvery call)
      ((List.range TotalCards).foldlM (insertCard (failsAt call why) TotalCards CommitEvery)
        (atIteration CommitEvery printed 0)) := by
  obtain ⟨rest, hrest⟩ := range_split hi
  have hpass : ∀ j < i, Passes (failsAt call why) j := by
    intro j hj
    have hne : j ≠ i := by omega
    rcases hcall with rfl | rfl | rfl
    · exact ⟨failsAt_of_ne why (by simpa using hne), failsAt_of_ne why (by simp),
        failsAt_of_ne why (by simp)⟩
    · exact ⟨failsAt_of_ne why (by simp), failsAt_of_ne why (by simpa using hne),
        failsAt_of_ne why (by simp)⟩
    · exact ⟨failsAt_of_ne why (by simp), failsAt_of_ne why (by simp),
        failsAt_of_ne why (by simpa using hne)⟩
  obtain ⟨printed', hbefore⟩ :=
    insertCards_pass TotalCards CommitEvery hpass printed
  rw [hrest, List.foldlM_append, hbefore]
  exact (insertCard_interrupted hi hcall hoccurs printed').bind _

/-! ## The whole function -/

section Whole

variable (TotalCards CommitEvery)

/-- The opening of the database, for a file without the table. -/
theorem openCards_created (h : failing .openDatabase = none) (h' : failing .tableExists = none)
    (printed : List String) :
    openCards failing TotalCards CommitEvery ⟨⟨none, none⟩, none, printed⟩ =
      createCards failing TotalCards CommitEvery ⟨⟨none, none⟩, none, printed⟩ >>= fun ready =>
        exec failing .countCards .ok ready >>= fun counted =>
          .ok (counted.print ("  Total card count: " ++
            showInt (Int32.ofNat (counted.database.current.getD []).length) ++ "\n")) := by
  simp only [openCards, exec, h, h', bind, Except.bind]
  rfl

theorem createCards_inserting (h : failing .createTable = none) (h' : failing .prepareInsert = none)
    (printed : List String) :
    ∃ printed', createCards failing TotalCards CommitEvery ⟨⟨none, none⟩, none, printed⟩ =
      (List.range TotalCards).foldlM (insertCard failing TotalCards CommitEvery)
          (atIteration CommitEvery printed' 0) >>= fun inserted =>
        commitTransaction failing .lastCommit inserted >>= fun committed =>
          .ok (destroyTransaction (committed.print ". Done.\n")) := by
  refine ⟨printed ++ ["  'cards' table doesn't exist!\n"], ?_⟩
  simp only [createCards, exec, h, h', bind, Except.bind]
  rfl

variable {TotalCards}

theorem createCards_committing (hT : 1 ≤ TotalCards) (hcreate : failing .createTable = none)
    (hprepare : failing .prepareInsert = none) (hcards : ∀ i < TotalCards, Passes failing i)
    (printed : List String) :
    ∃ printed', createCards failing TotalCards CommitEvery ⟨⟨none, none⟩, none, printed⟩ =
      commitTransaction failing .lastCommit
          ⟨⟨some (testCards (committedCount CommitEvery TotalCards)), some (some (testCards TotalCards))⟩,
            some ⟨false⟩, printed'⟩ >>= fun committed =>
        .ok (destroyTransaction (committed.print ". Done.\n")) := by
  obtain ⟨before, hinserting⟩ :=
    createCards_inserting TotalCards CommitEvery hcreate hprepare printed
  obtain ⟨printed', hloop⟩ := insertCards_pass TotalCards CommitEvery hcards before
  refine ⟨printed', ?_⟩
  rw [hinserting, hloop]
  obtain ⟨n, rfl⟩ := Nat.exists_eq_add_of_le' hT
  rfl

theorem createCards_done (hT : 1 ≤ TotalCards) (hcreate : failing .createTable = none)
    (hprepare : failing .prepareInsert = none) (hcards : ∀ i < TotalCards, Passes failing i)
    (hcommit : failing .lastCommit = none) (printed : List String) :
    ∃ printed', createCards failing TotalCards CommitEvery ⟨⟨none, none⟩, none, printed⟩ =
      .ok ⟨⟨some (testCards TotalCards), none⟩, none, printed'⟩ := by
  obtain ⟨before, heq⟩ :=
    createCards_committing CommitEvery hT hcreate hprepare hcards printed
  refine ⟨before ++ [". Done.\n"], ?_⟩
  rw [heq, commitTransaction_open hcommit]
  rfl

/-- The creation of the cards stops in the call that throws, wherever that is. -/
theorem createCards_interrupted (hT : 1 ≤ TotalCards) {call : Call} (why : Exception)
    (hoccurs : Occurs TotalCards CommitEvery call)
    (hinside : call ≠ .openDatabase ∧ call ≠ .tableExists ∧ call ≠ .countCards)
    (printed : List String) :
    Interrupted why (leftBy TotalCards CommitEvery call)
      (createCards (failsAt call why) TotalCards CommitEvery ⟨⟨none, none⟩, none, printed⟩) := by
  have hfails := failsAt_self call why
  have hpass : ∀ other, other ≠ call → failsAt call why other = none :=
    fun other hne => failsAt_of_ne why hne
  by_cases hcreate : call = .createTable
  · subst hcreate
    exact (interrupted_exec hfails _ _).bind _
  have hcreated := hpass .createTable (Ne.symm hcreate)
  by_cases hprepare : call = .prepareInsert
  · subst hprepare
    refine ⟨⟨⟨some [], none⟩, none, printed ++ ["  'cards' table doesn't exist!\n"]⟩, ?_, rfl⟩
    simp only [createCards, exec, hcreated, hfails, bind, Except.bind]
    rfl
  have hprepared := hpass .prepareInsert (Ne.symm hprepare)
  have hloop : ∀ i, i < TotalCards → (call = .insert i ∨ call = .commitAfter i ∨
      call = .beginAfter i) → Interrupted why (leftBy TotalCards CommitEvery call)
        (createCards (failsAt call why) TotalCards CommitEvery ⟨⟨none, none⟩, none, printed⟩) := by
    intro i hi hcall
    obtain ⟨before, hinserting⟩ :=
      createCards_inserting TotalCards CommitEvery hcreated hprepared printed
    rw [hinserting]
    exact (insertCards_interrupted hi hcall hoccurs before).bind _
  cases call with
  | openDatabase => exact absurd rfl hinside.1
  | tableExists => exact absurd rfl hinside.2.1
  | countCards => exact absurd rfl hinside.2.2
  | createTable => exact absurd rfl hcreate
  | prepareInsert => exact absurd rfl hprepare
  | insert i => exact hloop i hoccurs (Or.inl rfl)
  | commitAfter i => exact hloop i hoccurs.2.1 (Or.inr (Or.inl rfl))
  | beginAfter i => exact hloop i hoccurs.1 (Or.inr (Or.inr rfl))
  | lastCommit =>
    have hcards : ∀ i < TotalCards, Passes (failsAt .lastCommit why) i :=
      fun i _ => ⟨hpass _ (by simp), hpass _ (by simp), hpass _ (by simp)⟩
    obtain ⟨before, heq⟩ :=
      createCards_committing CommitEvery hT hcreated hprepared hcards printed
    rw [heq]
    exact (interrupted_commitTransaction hfails).bind _

theorem openCards_interrupted (hT : 1 ≤ TotalCards) {call : Call} (why : Exception)
    (hoccurs : Occurs TotalCards CommitEvery call) (printed : List String) :
    Interrupted why (leftBy TotalCards CommitEvery call)
      (openCards (failsAt call why) TotalCards CommitEvery ⟨⟨none, none⟩, none, printed⟩) := by
  have hfails := failsAt_self call why
  have hpass : ∀ other, other ≠ call → failsAt call why other = none :=
    fun other hne => failsAt_of_ne why hne
  by_cases hopen : call = .openDatabase
  · subst hopen
    exact (interrupted_exec hfails _ _).bind _
  have hopened := hpass .openDatabase (Ne.symm hopen)
  by_cases hlook : call = .tableExists
  · subst hlook
    refine ⟨⟨⟨none, none⟩, none, printed⟩, ?_, rfl⟩
    simp only [openCards, exec, hopened, hfails, bind, Except.bind]
  rw [openCards_created TotalCards CommitEvery hopened (hpass .tableExists (Ne.symm hlook))]
  by_cases hcount : call = .countCards
  · subst hcount
    have hcards : ∀ i < TotalCards, Passes (failsAt .countCards why) i :=
      fun i _ => ⟨hpass _ (by simp), hpass _ (by simp), hpass _ (by simp)⟩
    obtain ⟨printed', hdone⟩ := createCards_done CommitEvery hT (hpass .createTable (by simp))
      (hpass .prepareInsert (by simp)) hcards (hpass .lastCommit (by simp)) printed
    refine ⟨⟨⟨some (testCards TotalCards), none⟩, none, printed'⟩, ?_, rfl⟩
    rw [hdone]
    simp only [exec, hfails, bind, Except.bind]
  exact (createCards_interrupted CommitEvery hT why hoccurs ⟨hopen, hlook, hcount⟩ printed).bind _

/-- An undisturbed first setup returns with all cards and no open transaction, so none of
its `BEGIN`s was refused. -/
theorem postsetupDatabase_undisturbed (hT : 1 ≤ TotalCards) :
    ∃ printed, postsetupDatabase undisturbed TotalCards CommitEvery none =
      ⟨⟨some (testCards TotalCards), none⟩, .returned, printed⟩ := by
  have hcards : ∀ i < TotalCards, Passes undisturbed i := fun i _ => ⟨rfl, rfl, rfl⟩
  obtain ⟨before, hdone⟩ := createCards_done CommitEvery hT rfl rfl hcards rfl
    ["Opening the database\n\x7b\n"]
  have hopen : ∃ printed, openCards undisturbed TotalCards CommitEvery
      ⟨⟨none, none⟩, none, ["Opening the database\n\x7b\n"]⟩ =
        .ok ⟨⟨some (testCards TotalCards), none⟩, none, printed⟩ := by
    rw [openCards_created TotalCards CommitEvery rfl rfl, hdone]
    exact ⟨_, rfl⟩
  obtain ⟨printed, heq⟩ := hopen
  refine ⟨printed ++ ["\x7d\n"], ?_⟩
  simp only [postsetupDatabase, heq]

theorem postsetupDatabase_interrupted (hT : 1 ≤ TotalCards) {call : Call} (why : Exception)
    (hoccurs : Occurs TotalCards CommitEvery call) :
    (postsetupDatabase (failsAt call why) TotalCards CommitEvery none).ending = .exited ∧
      (postsetupDatabase (failsAt call why) TotalCards CommitEvery none).database.committed =
        leftBy TotalCards CommitEvery call := by
  obtain ⟨t, heq, hfile⟩ := openCards_interrupted CommitEvery hT why hoccurs
    ["Opening the database\n\x7b\n"]
  constructor
  · simp only [postsetupDatabase, heq]
  · simpa only [postsetupDatabase, heq] using hfile

/-- A setup that finds the table adds nothing. -/
theorem postsetupDatabase_existing (cards : List Card) :
    (postsetupDatabase undisturbed TotalCards CommitEvery (some cards)).database.committed =
      some cards := rfl

end Whole

/-- A failure-free first setup stores the test cards and leaves no transaction open; after a
first setup that failed, a second one completes it exactly when the failure was harmless. -/
theorem restart_completes_iff (TotalCards CommitEvery : Nat) (hT : 1 ≤ TotalCards) :
    (∃ printed, postsetupDatabase undisturbed TotalCards CommitEvery none =
      ⟨⟨some (testCards TotalCards), none⟩, .returned, printed⟩) ∧
    ∀ failed why, Occurs TotalCards CommitEvery failed →
      (postsetupDatabase (failsAt failed why) TotalCards CommitEvery none).ending = .exited ∧
      ((postsetupDatabase undisturbed TotalCards CommitEvery
          (postsetupDatabase (failsAt failed why) TotalCards CommitEvery
            none).database.committed).database.committed = some (testCards TotalCards) ↔
        Harmless TotalCards CommitEvery failed) := by
  obtain ⟨printed, hundisturbed⟩ := postsetupDatabase_undisturbed CommitEvery hT
  refine ⟨⟨printed, hundisturbed⟩, ?_⟩
  intro failed why hoccurs
  obtain ⟨hexited, hleft⟩ := postsetupDatabase_interrupted CommitEvery hT why hoccurs
  refine ⟨hexited, ?_⟩
  rw [hleft, ← leftBy_complete_iff hT hoccurs]
  cases hfile : leftBy TotalCards CommitEvery failed with
  | none => simp [hundisturbed]
  | some cards => simp [postsetupDatabase_existing]

/-- The constants of the source, with the insertion of the fourth card failing. -/
theorem restart_of_ten :
    ((postsetupDatabase undisturbed 10 1000
        (postsetupDatabase (failsAt .createTable "disk I/O error") 10 1000
          none).database.committed).database.committed = some (testCards 10) ↔
      Harmless 10 1000 .createTable) :=
  ((restart_completes_iff 10 1000 (by decide)).2 .createTable "disk I/O error" trivial).2

/-- With the constants of the source, a first setup whose insertion of the fourth card
fails leaves one card, and the second setup adds none. -/
theorem interrupted_insert_keeps_one :
    (postsetupDatabase (failsAt (.insert 3) "disk I/O error") 10 1000 none).ending = .exited ∧
      (postsetupDatabase undisturbed 10 1000
        (postsetupDatabase (failsAt (.insert 3) "disk I/O error") 10 1000
          none).database.committed).database.committed = some (testCards 1) ∧
      testCards 1 ≠ testCards 10 := by
  have hoccurs : Occurs 10 1000 (.insert 3) := by simp [Occurs]
  obtain ⟨hexited, hleft⟩ :=
    postsetupDatabase_interrupted 1000 (by decide) "disk I/O error" hoccurs
  refine ⟨hexited, ?_, by simp [testCards_inj]⟩
  rw [hleft]
  exact postsetupDatabase_existing 1000 _

end Unotu.Cards.Setup
