import Unotu.Library.Words
import Mathlib.Algebra.Group.Nat.Defs
import Mathlib.Data.List.TakeWhile

/-!
# Strings and the splitting of a query

A `std::string` is a list of bytes. `SplitSearchQuery` walks over the indices of the
query with a `std::size_t` that starts at the wrapped value of `-1`; it returns the words
of the query.
-/

set_option autoImplicit false

namespace Unotu.Cards

open Words

abbrev Text := List UInt8

def space : UInt8 := 32

/-- A `std::string`: its size stays below half of the range of `std::size_t`. -/
structure StdString where
  bytes : Text
  size_lt : bytes.length < 2 ^ 63
deriving DecidableEq

def StdString.size (s : StdString) : Nat := s.bytes.length

/-- `std::string::operator[]`; the index `size()` reads the terminating null. -/
def charAt (s : Text) (i : Nat) : UInt8 := s.getD i 0

theorem charAt_of_lt {s : Text} {i : Nat} (h : i < s.length) : charAt s i = s[i] := by
  simp [charAt, h]

/-- `std::string::substr`, which throws `std::out_of_range` beyond the end. -/
def substr (s : Text) (pos len : UInt64) : Option Text :=
  if pos.toNat ≤ s.length then some ((s.drop pos.toNat).take len.toNat) else none

/-- `std::string::find`, where `none` is `npos`. -/
def find (s part : Text) : Option Nat :=
  if part <+: s then some 0 else
    match s with
    | [] => none
    | _ :: s => (find s part).map (· + 1)

theorem find_isSome_iff (s part : Text) : (find s part).isSome ↔ part <:+: s := by
  induction s with
  | nil =>
    unfold find
    split
    · rename_i h
      simpa using h.isInfix
    · rename_i h
      simp only [Option.isSome_none, Bool.false_eq_true, false_iff]
      intro hsub
      rw [List.infix_nil.mp hsub] at h
      exact h List.nil_prefix
  | cons c s ih =>
    unfold find
    split
    · rename_i h
      simpa using h.isInfix
    · rename_i h
      rw [Option.isSome_map, ih, List.infix_cons_iff]
      constructor
      · exact Or.inr
      · intro hsub
        rcases hsub with hsub | hsub
        · exact absurd hsub h
        · exact hsub

/-- The bytes that a C string reader sees of a stored text. -/
def cString (s : Text) : Text := s.takeWhile (· ≠ 0)

/-! ## SplitSearchQuery -/

structure SplitState where
  lastSpace : UInt64 := -1
  output : List Text := []

def splitIteration (Query : Text) (st : SplitState) (i : Nat) : Option SplitState :=
  let Cur := charAt Query i
  if Cur = space ∨ i = Query.length then
    let StrLen := UInt64.ofNat i - (st.lastSpace + 1)
    if StrLen > 0 then do
      let Part ← substr Query (st.lastSpace + 1) StrLen
      some ⟨UInt64.ofNat i, st.output ++ [Part]⟩
    else
      some ⟨UInt64.ofNat i, st.output⟩
  else
    some st

/-- The loop runs over `i = 0, .., Query.size()`, the last index included. -/
def splitSearchQuery (Query : StdString) : Option (List Text) := do
  let st ← (List.range (Query.size + 1)).foldlM (splitIteration Query.bytes) {}
  some st.output

/-- At the start of iteration `i` the open word begins right after `LastSpace`. -/
structure SplitInvariant (q : Text) (i : Nat) (st : SplitState) : Prop where
  start_le : (st.lastSpace + 1).toNat ≤ i
  free : space ∉ (q.drop (st.lastSpace + 1).toNat).take (i - (st.lastSpace + 1).toNat)
  words_eq : st.output ++ words space (q.drop (st.lastSpace + 1).toNat) = words space q
  closed : i = q.length + 1 → (st.lastSpace + 1).toNat = i

theorem splitInvariant_zero (q : Text) : SplitInvariant q 0 {} where
  start_le := by decide
  free := by simp
  words_eq := rfl
  closed := by omega

theorem ofNat_add_one_toNat {i : Nat} (hi : i < 2 ^ 63) : (UInt64.ofNat i + 1).toNat = i + 1 := by
  rw [UInt64.toNat_add, UInt64.toNat_ofNat_of_lt' (by simp only [UInt64.size]; omega)]
  simp only [UInt64.reduceToNat]
  omega

theorem ofNat_sub_toNat {i : Nat} {k : UInt64} (hi : i < 2 ^ 63) (hk : k.toNat ≤ i) :
    (UInt64.ofNat i - k).toNat = i - k.toNat := by
  have hto : (UInt64.ofNat i).toNat = i :=
    UInt64.toNat_ofNat_of_lt' (by simp only [UInt64.size]; omega)
  rw [UInt64.toNat_sub_of_le _ _ (by rw [UInt64.le_iff_toNat_le, hto]; exact hk), hto]

theorem drop_eq_take_append {q : Text} {k i : Nat} (hk : k ≤ i) :
    q.drop k = (q.drop k).take (i - k) ++ q.drop i := by
  have hdrop : (q.drop k).drop (i - k) = q.drop i := by
    rw [List.drop_drop]
    congr 1
    omega
  rw [← hdrop, List.take_append_drop]

/-- Closing the open word: what is pushed and what is left are the words from `LastSpace` on. -/
theorem closed_words {q : Text} {k i : Nat} (hk : k ≤ i) (hi : i ≤ q.length)
    (hfree : space ∉ (q.drop k).take (i - k)) (hCur : charAt q i = space ∨ i = q.length) :
    words space (q.drop k) =
      (if 0 < i - k then [(q.drop k).take (i - k)] else []) ++ words space (q.drop (i + 1)) := by
  have hopen : words space ((q.drop k).take (i - k)) =
      if 0 < i - k then [(q.drop k).take (i - k)] else [] := by
    rw [words_of_notMem hfree]
    have hlen : ((q.drop k).take (i - k)).length = i - k := by
      rw [List.length_take, List.length_drop]
      omega
    by_cases h : 0 < i - k
    · have hne : (q.drop k).take (i - k) ≠ [] := by
        intro hnil
        rw [hnil, List.length_nil] at hlen
        omega
      rw [if_neg hne, if_pos h]
    · have hnil : (q.drop k).take (i - k) = [] := List.eq_nil_of_length_eq_zero (by omega)
      rw [if_pos hnil, if_neg h]
  have hcut : words space (q.drop k) = words space ((q.drop k).take (i - k) ++ q.drop i) := by
    rw [← drop_eq_take_append hk]
  rw [hcut, ← hopen]
  rcases Nat.lt_or_ge i q.length with hlt | hge
  · have hspace : q[i] = space := by
      rcases hCur with hCur | hend
      · rwa [charAt_of_lt hlt] at hCur
      · omega
    rw [List.drop_eq_getElem_cons hlt, hspace, words_append_cons]
  · have hend : q.drop i = [] := List.drop_eq_nil_of_le hge
    have hend' : q.drop (i + 1) = [] := List.drop_eq_nil_of_le (by omega)
    rw [hend, hend', words_nil, List.append_nil, List.append_nil]

theorem splitIteration_spec {q : Text} {i : Nat} {st : SplitState} (h : SplitInvariant q i st)
    (hi : i ≤ q.length) (hq : q.length < 2 ^ 63) :
    ∃ st', splitIteration q st i = some st' ∧ SplitInvariant q (i + 1) st' := by
  have hstart := h.start_le
  have hi63 : i < 2 ^ 63 := by omega
  have hlen : (UInt64.ofNat i - (st.lastSpace + 1)).toNat = i - (st.lastSpace + 1).toNat :=
    ofNat_sub_toNat hi63 hstart
  unfold splitIteration
  by_cases hCur : charAt q i = space ∨ i = q.length
  · simp only [if_pos hCur]
    have hwords := closed_words hstart hi h.free hCur
    have hnext : (UInt64.ofNat i + 1).toNat = i + 1 := ofNat_add_one_toNat hi63
    have hpos : UInt64.ofNat i - (st.lastSpace + 1) > 0 ↔ 0 < i - (st.lastSpace + 1).toNat := by
      rw [gt_iff_lt, UInt64.lt_iff_toNat_lt, hlen]
      rfl
    by_cases hStrLen : UInt64.ofNat i - (st.lastSpace + 1) > 0
    · have hin : (st.lastSpace + 1).toNat ≤ q.length := by omega
      simp only [if_pos hStrLen, substr, if_pos hin, Option.bind_eq_bind, Option.bind_some, hlen]
      refine ⟨_, rfl, by simp only [hnext]; omega, by simp [hnext], ?_, fun _ => hnext⟩
      rw [if_pos (hpos.mp hStrLen)] at hwords
      simp only [hnext]
      rw [← h.words_eq, hwords, List.append_assoc]
    · simp only [if_neg hStrLen]
      refine ⟨_, rfl, by simp only [hnext]; omega, by simp [hnext], ?_, fun _ => hnext⟩
      rw [if_neg (fun hlt => hStrLen (hpos.mpr hlt))] at hwords
      simp only [hnext]
      rw [← h.words_eq, hwords, List.nil_append]
  · simp only [if_neg hCur]
    rw [not_or] at hCur
    have hlt : i < q.length := by omega
    refine ⟨st, rfl, by omega, ?_, h.words_eq, by omega⟩
    have hstep : i + 1 - (st.lastSpace + 1).toNat = i - (st.lastSpace + 1).toNat + 1 := by omega
    have hbound : i - (st.lastSpace + 1).toNat < (q.drop (st.lastSpace + 1).toNat).length := by
      rw [List.length_drop]
      omega
    have hget : (q.drop (st.lastSpace + 1).toNat)[i - (st.lastSpace + 1).toNat] = q[i] := by
      rw [List.getElem_drop]
      congr 1
      omega
    rw [hstep, List.take_succ_eq_append_getElem hbound, hget]
    intro hmem
    rcases List.mem_append.mp hmem with hmem | hmem
    · exact h.free hmem
    · exact hCur.1 ((charAt_of_lt hlt).trans (List.mem_singleton.mp hmem).symm)

/-- The invariant at the start of every iteration, and after the last one. -/
theorem splitLoop_spec {q : Text} (hq : q.length < 2 ^ 63) {n : Nat} (hn : n ≤ q.length + 1) :
    ∃ st, (List.range n).foldlM (splitIteration q) {} = some st ∧ SplitInvariant q n st := by
  induction n with
  | zero => exact ⟨{}, rfl, splitInvariant_zero q⟩
  | succ n ih =>
    obtain ⟨st, hst, hinv⟩ := ih (by omega)
    obtain ⟨st', hst', hinv'⟩ := splitIteration_spec hinv (by omega) hq
    refine ⟨st', ?_, hinv'⟩
    rw [List.range_succ, List.foldlM_append, hst]
    simp [hst']

/-- `SplitSearchQuery` never reads out of range and returns the words of the query. -/
theorem splitSearchQuery_eq (Query : StdString) :
    splitSearchQuery Query = some (words space Query.bytes) := by
  obtain ⟨st, hst, hinv⟩ := splitLoop_spec Query.size_lt (n := Query.size + 1) (Nat.le_refl _)
  have hwords := hinv.words_eq
  have hclosed : (st.lastSpace + 1).toNat = Query.bytes.length + 1 := hinv.closed rfl
  rw [hclosed, List.drop_eq_nil_of_le (by omega), words_nil, List.append_nil] at hwords
  simp only [splitSearchQuery, hst, Option.bind_eq_bind, Option.bind_some, hwords]

end Unotu.Cards
