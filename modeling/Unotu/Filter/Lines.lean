import Unotu.Filter.Node

/-!
# Parameters as text

`fnp_stringlist::AsString` writes a newline when there is text before it already, not when
there is an element before it, so empty strings at the front leave no line behind.
-/

set_option autoImplicit false

namespace Unotu.Filter

open Unotu.Cards

def newline : UInt8 := 10

/-- One pass of the loop over `List`. -/
def appendLine (Output String : Text) : Text :=
  (if Output.length ≠ 0 then Output ++ [newline] else Output) ++ String

def stringlistAsString (List : List Text) : Text := List.foldl appendLine []

/-- The virtual `AsString`; `fnp_stringlist_every` inherits the one of `fnp_stringlist`. -/
def Parameter.asString : Parameter → Text
  | stringlist List => stringlistAsString List
  | stringlistAny [] => []
  | stringlistAny (String :: _) => String
  | stringlistEvery List => stringlistAsString List
  | string String => String
  | boolean true => [116, 114, 117, 101]
  | boolean false => [102, 97, 108, 115, 101]

/-- The elements joined by a newline between each two neighbours. -/
def lines (List : List Text) : Text := [newline].intercalate List

/-- The list does not begin with an empty string, unless that is all of it. -/
def FirstLineCounts (List : List Text) : Prop := List.length ≤ 1 ∨ List.head? ≠ some []

theorem appendLine_nil (String : Text) : appendLine [] String = String := rfl

theorem appendLine_of_ne_nil {Output : Text} (h : Output ≠ []) (String : Text) :
    appendLine Output String = Output ++ newline :: String := by
  have hlength : Output.length ≠ 0 := fun hzero => h (List.eq_nil_of_length_eq_zero hzero)
  rw [appendLine, if_pos hlength, List.append_assoc]
  rfl

theorem lines_append_cons (Output String : Text) (Strings : List Text) :
    lines ((Output ++ String) :: Strings) = Output ++ lines (String :: Strings) := by
  cases Strings with
  | nil => simp [lines]
  | cons _ _ => simp [lines, List.intercalate_cons_cons]

/-- Once there is text, every further element gets its newline. -/
theorem foldl_appendLine {Output : Text} (h : Output ≠ []) (Strings : List Text) :
    Strings.foldl appendLine Output = lines (Output :: Strings) := by
  induction Strings generalizing Output with
  | nil => simp [lines]
  | cons String Strings ih =>
    have hne : Output ++ newline :: String ≠ [] := by simp
    have hcons : newline :: String = [newline] ++ String := rfl
    rw [List.foldl_cons, appendLine_of_ne_nil h, ih hne, hcons, ← List.append_assoc,
      lines_append_cons]
    simp [lines, List.intercalate_cons_cons]

theorem stringlistAsString_cons (String : Text) (Strings : List Text) :
    stringlistAsString (String :: Strings) =
      if String = [] then stringlistAsString Strings else lines (String :: Strings) := by
  rw [stringlistAsString, List.foldl_cons, appendLine_nil]
  split
  · rename_i hnil
    rw [hnil]
    rfl
  · rename_i hne
    exact foldl_appendLine hne Strings

theorem lines_nil_cons {Strings : List Text} (h : Strings ≠ []) :
    lines ([] :: Strings) = newline :: lines Strings := by
  rw [lines, List.intercalate_cons_of_ne_nil h]
  rfl

theorem length_stringlistAsString_le (Strings : List Text) :
    (stringlistAsString Strings).length ≤ (lines Strings).length := by
  induction Strings with
  | nil => exact Nat.le_refl _
  | cons String Strings ih =>
    rw [stringlistAsString_cons]
    split
    · rename_i hnil
      subst String
      by_cases hlist : Strings = []
      · subst Strings
        exact Nat.le_refl _
      · rw [lines_nil_cons hlist, List.length_cons]
        omega
    · exact Nat.le_refl _

theorem stringlistAsString_eq_iff (Strings : List Text) :
    stringlistAsString Strings = lines Strings ↔ FirstLineCounts Strings := by
  cases Strings with
  | nil => exact iff_of_true rfl (Or.inl (Nat.zero_le 1))
  | cons String Strings =>
    rw [stringlistAsString_cons]
    split
    · rename_i hnil
      subst String
      by_cases hlist : Strings = []
      · subst Strings
        exact iff_of_true rfl (Or.inl (Nat.le_refl 1))
      · -- a line is missing, and nothing makes up for it
        refine iff_of_false ?_ ?_
        · intro heq
          have hle := length_stringlistAsString_le Strings
          rw [heq, lines_nil_cons hlist, List.length_cons] at hle
          omega
        · intro hcounts
          rcases hcounts with hlength | hhead
          · have hpos : 0 < Strings.length := List.length_pos_iff.mpr hlist
            rw [List.length_cons] at hlength
            omega
          · exact hhead rfl
    · rename_i hne
      refine iff_of_true rfl (Or.inr ?_)
      rw [List.head?_cons, ne_eq, Option.some.injEq]
      exact hne

theorem splitOn_asString_iff {Strings : List Text} (hne : Strings ≠ [])
    (hfree : ∀ String ∈ Strings, newline ∉ String) :
    (stringlistAsString Strings).splitOn newline = Strings ↔
      stringlistAsString Strings = lines Strings := by
  constructor
  · intro hsplit
    have hjoin : lines ((stringlistAsString Strings).splitOn newline) =
        stringlistAsString Strings := List.intercalate_splitOn newline
    rw [hsplit] at hjoin
    exact hjoin.symm
  · intro hlines
    rw [hlines]
    exact List.splitOn_intercalate newline hfree hne

/-- The text of a list is its lines, and splits back into them, exactly when the first line
counts. -/
theorem asString_lines_iff (Strings : List Text) :
    ((Parameter.stringlist Strings).asString = lines Strings ↔ FirstLineCounts Strings) ∧
      (Strings ≠ [] → (∀ String ∈ Strings, newline ∉ String) →
        ((Parameter.stringlist Strings).asString.splitOn newline = Strings ↔
          FirstLineCounts Strings)) := by
  refine ⟨stringlistAsString_eq_iff Strings, ?_⟩
  intro hne hfree
  exact (splitOn_asString_iff hne hfree).trans (stringlistAsString_eq_iff Strings)

/-- An empty string before `"a"` is lost. -/
theorem leading_empty_line_lost :
    (Parameter.stringlist [[], [97]]).asString = [97] ∧ lines [[], [97]] = [newline, 97] ∧
      (Parameter.stringlist [[], [97]]).asString ≠ lines [[], [97]] ∧
      (Parameter.stringlist [[], [97]]).asString.splitOn newline ≠ [[], [97]] := by
  have htext : (Parameter.stringlist [[], [97]]).asString = [97] := rfl
  refine ⟨htext, rfl, ?_, ?_⟩
  · rw [htext]
    decide
  · rw [htext]
    decide

end Unotu.Filter
