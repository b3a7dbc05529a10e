import Unotu.Cards.Restart
import Unotu.Library.CallSequence

/-!
# Starting again and again

Any calls may fail in any start of the program. The first of them that a start makes decides
what it leaves, and the first start that creates the table decides the file for all later ones.
-/

set_option autoImplicit false

namespace Unotu.Cards.Setup

open CallSequence

variable {failing : Call → Option Exception} {TotalCards CommitEvery : Nat} {s : State}

def Fails (failing : Call → Option Exception) (call : Call) : Bool := (failing call).isSome

/-! ## The calls of a start -/

def iterationCalls (CommitEvery i : Nat) : List Call :=
  .insert i ::
    if i % CommitEvery = 0 then (if 0 < i then [.commitAfter i] else []) ++ [.beginAfter i] else []

def creationCalls (TotalCards CommitEvery : Nat) : List Call :=
  [.createTable] ++ ([.prepareInsert] ++
    ((List.range TotalCards).flatMap (iterationCalls CommitEvery) ++ [.lastCommit]))

/-- The calls of a start that none of them stops, in their order. -/
def startCalls (TotalCards CommitEvery : Nat) (file : Store) : List Call :=
  [.openDatabase] ++ ([.tableExists] ++
    ((if file.isNone then creationCalls TotalCards CommitEvery else []) ++ [.countCards]))

/-- The exception of this call has left the function. -/
def StoppedBy (failing : Call → Option Exception) (leave : Call → Store) (call : Call)
    (e : State × Stop) : Prop :=
  ∃ why, failing call = some why ∧ e.2 = .thrown why ∧
    (destroyTransaction e.1).database.committed = leave call

theorem makes_call {call : Call} {leave : Call → Store} {final : State → Prop}
    {r : Except (State × Stop) State} (hok : failing call = none → ∃ s, r = .ok s ∧ final s)
    (hfail : ∀ why, failing call = some why → Interrupted why (leave call) r) :
    Makes (Fails failing) (StoppedBy failing leave) [call] final r := by
  apply Makes.single
  · intro h
    exact hok (by simpa [Fails] using h)
  · intro h
    obtain ⟨why, hwhy⟩ := Option.isSome_iff_exists.mp h
    obtain ⟨t, rfl, hfile⟩ := hfail why hwhy
    exact ⟨_, rfl, why, hwhy, rfl, hfile⟩

theorem makes_exec {call : Call} {leave : Call → Store} {db : Connection Store}
    {statement : Connection Store → Except Exception (Connection Store)} {s : State}
    (hstatement : statement s.database = .ok db) (hleave : s.database.committed = leave call) :
    Makes (Fails failing) (StoppedBy failing leave) [call] (fun t => t = { s with database := db })
      (exec failing call statement s) := by
  apply makes_call
  · intro h
    exact ⟨_, exec_of_ok h hstatement, rfl⟩
  · intro why h
    rw [← hleave]
    exact interrupted_exec h statement s

theorem makes_newTransaction {call : Call} {leave : Call → Store} {x : Store}
    {transaction : Option Transaction} {printed : List String}
    (htransaction : transaction ≠ some ⟨false⟩) (hleave : x = leave call) :
    Makes (Fails failing) (StoppedBy failing leave) [call]
      (fun t => t = ⟨⟨x, some x⟩, some ⟨false⟩, printed⟩)
      (newTransaction failing call ⟨⟨x, none⟩, transaction, printed⟩) := by
  apply makes_call
  · intro h
    exact ⟨_, newTransaction_idle h htransaction, rfl⟩
  · intro why h
    rw [← hleave]
    exact interrupted_newTransaction h _

theorem makes_commitTransaction {call : Call} {leave : Call → Store} {x w : Store}
    {printed : List String} (hleave : x = leave call) :
    Makes (Fails failing) (StoppedBy failing leave) [call]
      (fun t => t = ⟨⟨w, none⟩, some ⟨true⟩, printed⟩)
      (commitTransaction failing call ⟨⟨x, some w⟩, some ⟨false⟩, printed⟩) := by
  apply makes_call
  · intro h
    exact ⟨_, commitTransaction_open h, rfl⟩
  · intro why h
    rw [← hleave]
    exact interrupted_commitTransaction h

theorem atIteration_batch {i : Nat} (h : i % CommitEvery = 0) (printed : List String) :
    atIteration CommitEvery printed (i + 1) =
      ⟨⟨some (testCards (i + 1)), some (some (testCards (i + 1)))⟩, some ⟨false⟩, printed⟩ := by
  rw [atIteration, committedCount_of_dvd h]

theorem atIteration_between {i : Nat} (h : ¬ (i + 1) % CommitEvery = 0) (printed : List String) :
    atIteration CommitEvery printed (i + 2) =
      ⟨⟨some (testCards (committedCount CommitEvery (i + 1))), some (some (testCards (i + 2)))⟩,
        some ⟨false⟩, printed⟩ := by
  rw [atIteration, committedCount_of_not_dvd (Nat.succ_pos i) h]

theorem insertCard_makes {i : Nat} {s : State}
    (hs : ∃ printed, s = atIteration CommitEvery printed i) :
    Makes (Fails failing) (StoppedBy failing (leftBy TotalCards CommitEvery))
      (iterationCalls CommitEvery i) (fun t => ∃ printed, t = atIteration CommitEvery printed (i + 1))
      (insertCard failing TotalCards CommitEvery s i) := by
  obtain ⟨printed, rfl⟩ := hs
  unfold insertCard iterationCalls
  rw [← List.singleton_append]
  cases i with
  | zero =>
    have hinsert : insertRow (testCard 0) ⟨some [], none⟩ = .ok ⟨some (testCards 1), none⟩ := rfl
    apply Makes.bind (makes_exec hinsert rfl)
    intro t ht
    subst ht
    rw [if_pos (Nat.zero_mod _), if_pos (Nat.zero_mod _)]
    apply Makes.weaken (makes_newTransaction (by simp [atIteration]) rfl)
    intro t ht
    exact ⟨_, ht.trans (atIteration_batch (Nat.zero_mod _) _).symm⟩
  | succ i =>
    have hinsert : insertRow (testCard (i + 1))
        ⟨some (testCards (committedCount CommitEvery (i + 1))), some (some (testCards (i + 1)))⟩ =
        .ok ⟨some (testCards (committedCount CommitEvery (i + 1))), some (some (testCards (i + 2)))⟩ := by
      rw [testCards_succ (i + 1)]
      rfl
    apply Makes.bind (makes_exec hinsert rfl)
    intro t ht
    subst ht
    by_cases hdvd : (i + 1) % CommitEvery = 0
    · rw [if_pos hdvd, if_pos hdvd, if_pos (Nat.succ_pos i)]
      apply Makes.bind (makes_commitTransaction rfl)
      intro t ht
      subst ht
      apply Makes.weaken (makes_newTransaction (by simp) rfl)
      intro t ht
      exact ⟨_, ht.trans (atIteration_batch hdvd _).symm⟩
    · rw [if_neg hdvd, if_neg hdvd]
      exact .of_ok ⟨_, (atIteration_between hdvd _).symm⟩

theorem createCards_makes (hT : 1 ≤ TotalCards) (printed : List String) :
    Makes (Fails failing) (StoppedBy failing (leftBy TotalCards CommitEvery))
      (creationCalls TotalCards CommitEvery)
      (fun t => ∃ printed, t = ⟨⟨some (testCards TotalCards), none⟩, none, printed⟩)
      (createCards failing TotalCards CommitEvery ⟨⟨none, none⟩, none, printed⟩) := by
  unfold createCards creationCalls
  have hcreate : createTable ⟨none, none⟩ = .ok ⟨some [], none⟩ := rfl
  apply Makes.bind (makes_exec hcreate rfl)
  intro t ht
  subst ht
  apply Makes.bind (makes_exec rfl rfl)
  intro t ht
  subst ht
  apply Makes.bind (Makes.foldlM (fun i t => ∃ printed, t = atIteration CommitEvery printed i)
    (fun i _ t ht => insertCard_makes ht) ⟨_, rfl⟩)
  rintro t ⟨printed', rfl⟩
  obtain ⟨n, rfl⟩ := Nat.exists_eq_add_of_le' hT
  rw [← List.append_nil [Call.lastCommit]]
  apply Makes.bind (makes_commitTransaction rfl)
  intro t ht
  subst ht
  exact .of_ok ⟨_, rfl⟩

/-- What the first of its failing calls leaves of a start that found this file. -/
def leftIn (TotalCards CommitEvery : Nat) (file : Store) (call : Call) : Store :=
  if file.isNone then leftBy TotalCards CommitEvery call else file

theorem openCards_makes (hT : 1 ≤ TotalCards) (CommitEvery : Nat) (file : Store)
    (failing : Call → Option Exception) (printed : List String) :
    Makes (Fails failing) (StoppedBy failing (leftIn TotalCards CommitEvery file))
      (startCalls TotalCards CommitEvery file)
      (fun t => t.database.committed = some (file.getD (testCards TotalCards)))
      (openCards failing TotalCards CommitEvery ⟨⟨file, none⟩, none, printed⟩) := by
  unfold openCards startCalls
  cases file with
  | none =>
    apply Makes.bind (makes_exec rfl rfl)
    intro t ht
    subst ht
    apply Makes.bind (makes_exec rfl rfl)
    intro t ht
    subst ht
    apply Makes.bind (createCards_makes hT printed)
    rintro t ⟨printed', rfl⟩
    rw [← List.append_nil [Call.countCards]]
    apply Makes.bind (makes_exec rfl rfl)
    intro t ht
    subst ht
    exact .of_ok rfl
  | some cards =>
    apply Makes.bind (makes_exec rfl rfl)
    intro t ht
    subst ht
    apply Makes.bind (makes_exec rfl rfl)
    intro t ht
    subst ht
    -- the table is there, so the count is the next call
    change Makes _ _ ([Call.countCards] ++ []) _
      (exec failing .countCards .ok ⟨⟨some cards, none⟩, none, printed⟩ >>= _)
    apply Makes.bind (makes_exec rfl rfl)
    intro t ht
    subst ht
    exact .of_ok rfl

theorem postsetupDatabase_outcome (hT : 1 ≤ TotalCards) (CommitEvery : Nat) (file : Store)
    (failing : Call → Option Exception) :
    match (startCalls TotalCards CommitEvery file).find? (Fails failing) with
    | some call =>
      (postsetupDatabase failing TotalCards CommitEvery file).ending = .exited ∧
        (postsetupDatabase failing TotalCards CommitEvery file).database.committed =
          leftIn TotalCards CommitEvery file call
    | none =>
      (postsetupDatabase failing TotalCards CommitEvery file).ending = .returned ∧
        (postsetupDatabase failing TotalCards CommitEvery file).database.committed =
          some (file.getD (testCards TotalCards)) := by
  have hmakes := openCards_makes hT CommitEvery file failing
    ["Opening the database\n\x7b\n"]
  unfold Makes at hmakes
  unfold postsetupDatabase
  cases hfirst : (startCalls TotalCards CommitEvery file).find? (Fails failing) with
  | some call =>
    rw [hfirst] at hmakes
    obtain ⟨⟨t, stop⟩, heq, why, -, hstop, hfile⟩ := hmakes
    simp only at hstop hfile
    subst hstop
    rw [heq]
    exact ⟨rfl, hfile⟩
  | none =>
    rw [hfirst] at hmakes
    obtain ⟨t, heq, hfile⟩ := hmakes
    rw [heq]
    exact ⟨rfl, hfile⟩

/-! ## Many starts -/

/-- The file after a start. -/
def startOn (TotalCards CommitEvery : Nat) (file : Store) (failing : Call → Option Exception) :
    Store :=
  (postsetupDatabase failing TotalCards CommitEvery file).database.committed

/-- What a start leaves that finds no table. -/
def firstSetup (TotalCards CommitEvery : Nat) (failing : Call → Option Exception) : Store :=
  match (startCalls TotalCards CommitEvery none).find? (Fails failing) with
  | some call => leftBy TotalCards CommitEvery call
  | none => some (testCards TotalCards)

theorem startOn_eq (hT : 1 ≤ TotalCards) (CommitEvery : Nat) (file : Store)
    (failing : Call → Option Exception) :
    startOn TotalCards CommitEvery file failing =
      file.or (firstSetup TotalCards CommitEvery failing) := by
  have houtcome := postsetupDatabase_outcome hT CommitEvery file failing
  unfold startOn firstSetup
  cases file with
  | none =>
    rw [Option.none_or]
    split at houtcome
    · exact houtcome.2
    · exact houtcome.2
  | some cards =>
    rw [Option.some_or]
    split at houtcome
    · exact houtcome.2
    · exact houtcome.2

theorem foldl_startOn (hT : 1 ≤ TotalCards) (CommitEvery : Nat) (file : Store)
    (starts : List (Call → Option Exception)) :
    starts.foldl (startOn TotalCards CommitEvery) file =
      file.or (starts.findSome? (firstSetup TotalCards CommitEvery)) := by
  induction starts generalizing file with
  | nil => rw [List.foldl_nil, List.findSome?_nil, Option.or_none]
  | cons failing starts ih =>
    rw [List.foldl_cons, ih, startOn_eq hT, List.findSome?_cons, Option.or_assoc]
    congr 1
    cases firstSetup TotalCards CommitEvery failing with
    | none => rw [Option.none_or]
    | some cards => rw [Option.some_or]

/-- No card, all of them, or the batches that were committed so far. -/
def AtBatch (TotalCards CommitEvery k : Nat) : Prop :=
  k = 0 ∨ k = TotalCards ∨ ∃ i, i < TotalCards ∧ i % CommitEvery = 0 ∧ k = i + 1

theorem committedCount_atBatch (CommitEvery : Nat) {i : Nat} (hi : i ≤ TotalCards) :
    AtBatch TotalCards CommitEvery (committedCount CommitEvery i) := by
  cases i with
  | zero => exact Or.inl rfl
  | succ i =>
    have hle := Nat.div_mul_le_self i CommitEvery
    refine Or.inr (Or.inr ⟨i / CommitEvery * CommitEvery, by omega, Nat.mul_mod_left _ _, rfl⟩)

/-- Fewer cards than a batch has are inserted and not committed. -/
theorem lt_committedCount_add (hC : 1 ≤ CommitEvery) (i : Nat) :
    i < committedCount CommitEvery i + CommitEvery := by
  cases i with
  | zero => exact Nat.lt_add_left _ hC
  | succ i =>
    have hlt := Nat.lt_div_mul_add hC (a := i)
    rw [committedCount]
    omega

theorem leftBy_iterationCalls {i : Nat} (hi : i < TotalCards) {call : Call}
    (h : call ∈ iterationCalls CommitEvery i) :
    ∃ k, AtBatch TotalCards CommitEvery k ∧ leftBy TotalCards CommitEvery call = some (testCards k) := by
  have hbefore := committedCount_atBatch CommitEvery (Nat.le_of_lt hi)
  unfold iterationCalls at h
  rcases List.mem_cons.mp h with rfl | h
  · exact ⟨_, hbefore, rfl⟩
  · split at h
    · rename_i hdvd
      rcases List.mem_append.mp h with h | h
      · split at h
        · cases List.mem_singleton.mp h
          exact ⟨_, hbefore, rfl⟩
        · cases h
      · cases List.mem_singleton.mp h
        exact ⟨i + 1, Or.inr (Or.inr ⟨i, hi, hdvd, rfl⟩), rfl⟩
    · cases h

theorem firstSetup_atBatch {cards : List Card}
    (h : firstSetup TotalCards CommitEvery failing = some cards) :
    ∃ k, AtBatch TotalCards CommitEvery k ∧ cards = testCards k := by
  unfold firstSetup at h
  split at h
  · rename_i call hfirst
    have hmem := List.mem_of_find?_eq_some hfirst
    simp only [startCalls, creationCalls, Option.isNone_none, if_true, List.mem_append,
      List.mem_singleton, List.mem_flatMap, List.mem_range] at hmem
    rcases hmem with rfl | rfl | (rfl | rfl | ⟨i, hi, hmem⟩ | rfl) | rfl
    · cases h
    · cases h
    · cases h
    · cases h
      exact ⟨0, Or.inl rfl, rfl⟩
    · obtain ⟨k, hk, hleft⟩ := leftBy_iterationCalls hi hmem
      rw [hleft] at h
      exact ⟨k, hk, (Option.some.inj h).symm⟩
    · cases h
      exact ⟨_, committedCount_atBatch CommitEvery (Nat.le_refl _), rfl⟩
    · cases h
      exact ⟨TotalCards, Or.inr (Or.inl rfl), rfl⟩
  · cases h
    exact ⟨TotalCards, Or.inr (Or.inl rfl), rfl⟩

theorem atBatch_of_starts (hT : 1 ≤ TotalCards) {starts : List (Call → Option Exception)}
    {cards : List Card}
    (h : starts.foldl (startOn TotalCards CommitEvery) none = some cards) :
    ∃ k, AtBatch TotalCards CommitEvery k ∧ cards = testCards k := by
  rw [foldl_startOn hT, Option.none_or] at h
  obtain ⟨failing, -, hfirst⟩ := List.exists_of_findSome?_eq_some h
  exact firstSetup_atBatch hfirst

theorem AtBatch.le {k : Nat} (h : AtBatch TotalCards CommitEvery k) : k ≤ TotalCards := by
  rcases h with rfl | rfl | ⟨i, hi, -, rfl⟩
  · exact Nat.zero_le _
  · exact Nat.le_refl _
  · exact hi

/-- After any starts, whatever fails in them, the file is what the first start left that created
the table; it holds committed batches only, a start that fails at an insertion loses less than a
batch, and the next start returns exactly when none of the calls it makes fails, and never
crashes. -/
theorem run_starts (TotalCards CommitEvery : Nat) (hT : 1 ≤ TotalCards) (hC : 1 ≤ CommitEvery)
    (starts : List (Call → Option Exception)) :
    starts.foldl (startOn TotalCards CommitEvery) none =
        starts.findSome? (firstSetup TotalCards CommitEvery) ∧
      (∀ cards, starts.foldl (startOn TotalCards CommitEvery) none = some cards →
        ∃ k, AtBatch TotalCards CommitEvery k ∧ cards = testCards k) ∧
      (∀ failing i,
        (startCalls TotalCards CommitEvery none).find? (Fails failing) = some (.insert i) →
        ∃ k, firstSetup TotalCards CommitEvery failing = some (testCards k) ∧
          k ≤ i ∧ i < k + CommitEvery) ∧
      ∀ failing, (postsetupDatabase failing TotalCards CommitEvery
          (starts.foldl (startOn TotalCards CommitEvery) none)).ending =
        if (startCalls TotalCards CommitEvery
            (starts.foldl (startOn TotalCards CommitEvery) none)).any (Fails failing) then .exited
        else .returned := by
  have hfile := foldl_startOn hT CommitEvery none starts
  rw [Option.none_or] at hfile
  refine ⟨hfile, fun cards hcards => atBatch_of_starts hT hcards, ?_, ?_⟩
  · intro failing i hfirst
    refine ⟨committedCount CommitEvery i, ?_, committedCount_le CommitEvery i,
      lt_committedCount_add hC i⟩
    rw [firstSetup, hfirst]
    rfl
  · intro failing
    have houtcome := postsetupDatabase_outcome hT CommitEvery
      (starts.foldl (startOn TotalCards CommitEvery) none) failing
    split at houtcome
    · rename_i call hfirst
      rw [if_pos (List.any_eq_true.mpr ⟨call, List.mem_of_find?_eq_some hfirst,
        List.find?_some hfirst⟩)]
      exact houtcome.1
    · rename_i hnone
      rw [if_neg (by rw [List.find?_eq_none] at hnone; simpa using hnone)]
      exact houtcome.1

/-- The first start cannot write to the disk, the second fails at the fourth card, and the third
finds the table. -/
theorem run_starts_thrice :
    [failsAt .createTable "disk I/O error", failsAt (.insert 3) "disk I/O error", undisturbed].foldl
        (startOn 10 1000) none = some (testCards 1) :=
  (run_starts 10 1000 (by decide) (by decide) _).1.trans rfl

end Unotu.Cards.Setup
