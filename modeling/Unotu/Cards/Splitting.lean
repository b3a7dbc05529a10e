import Unotu.Cards.Text

/-!
# The iterations of SplitSearchQuery

What is returned, and why the unsigned arithmetic of the loop never goes wrong: at the start of
each iteration `LastSpace + 1`, zero at first by wrapping, is an index at or before `i`.
-/

set_option autoImplicit false

namespace Unotu.Cards

open Words

/-- The state of the loop when iteration `i` starts; `none` when an earlier `substr` threw. -/
def splitBefore (Query : StdString) (i : Nat) : Option SplitState :=
  (List.range i).foldlM (splitIteration Query.bytes) {}

/-- The indices of iteration `i` stay in order, and its `substr` is in range. -/
structure IndexSound (Query : StdString) (i : Nat) (st : SplitState) : Prop where
  start_le : (st.lastSpace + 1).toNat ≤ i
  le_size : i ≤ Query.size
  StrLen : (UInt64.ofNat i - (st.lastSpace + 1)).toNat = i - (st.lastSpace + 1).toNat
  substr : substr Query.bytes (st.lastSpace + 1) (UInt64.ofNat i - (st.lastSpace + 1)) =
    some ((Query.bytes.drop (st.lastSpace + 1).toNat).take (i - (st.lastSpace + 1).toNat))

/-- The parts are the runs without a space, each at its place in the query. -/
structure SplitLaw (Query : StdString) (Output : List Text) : Prop where
  exact : ∃ starts : List Nat, starts.Pairwise (· < ·) ∧ starts.length = Output.length ∧
    ∀ k w, IsRunAt space Query.bytes k w ↔ (k, w) ∈ starts.zip Output
  part : ∀ w ∈ Output, w ≠ [] ∧ space ∉ w
  joined : Output.flatten = Query.bytes.filter fun c => decide (c ≠ space)

theorem splitLaw_words (Query : StdString) : SplitLaw Query (words space Query.bytes) where
  exact := exists_starts Query.bytes
  part w hw := by
    have hrun := isRun_of_mem hw
    exact ⟨hrun.ne_nil, hrun.free⟩
  joined := flatten_words Query.bytes

theorem SplitInvariant.indexSound {Query : StdString} {i : Nat} {st : SplitState}
    (h : SplitInvariant Query.bytes i st) (hi : i ≤ Query.size) : IndexSound Query i st := by
  have hstart := h.start_le
  have hsize := Query.size_lt
  have hlt : i < 2 ^ 63 := by
    rw [StdString.size] at hi
    omega
  have hlength : (UInt64.ofNat i - (st.lastSpace + 1)).toNat = i - (st.lastSpace + 1).toNat :=
    ofNat_sub_toNat hlt hstart
  refine ⟨hstart, hi, hlength, ?_⟩
  have hin : (st.lastSpace + 1).toNat ≤ Query.bytes.length := by
    rw [StdString.size] at hi
    omega
  rw [substr, if_pos hin, hlength]

/-- For every query the parts are exact and the indices of every iteration are sound. -/
theorem splitSearchQuery_exact (Query : StdString) :
    (∃ Output, splitSearchQuery Query = some Output ∧ SplitLaw Query Output) ∧
      ∀ i ≤ Query.size, ∃ st, splitBefore Query i = some st ∧ IndexSound Query i st := by
  constructor
  · exact ⟨_, splitSearchQuery_eq Query, splitLaw_words Query⟩
  · intro i hi
    have hle : i ≤ Query.bytes.length + 1 := Nat.le_succ_of_le hi
    obtain ⟨st, hst, hinv⟩ := splitLoop_spec Query.size_lt hle
    exact ⟨st, hst, hinv.indexSound hi⟩

/-- Leading, repeated and trailing spaces. -/
example : splitSearchQuery ⟨[32, 97, 32, 32, 98, 99, 32], by decide⟩ = some [[97], [98, 99]] := by
  decide +kernel

end Unotu.Cards
