import Unotu.Graph.Soundness

/-!
# Which nodes a release destroys

A node in no graph lives only as long as some caller holds it, so releasing it removes
it from the represented multigraph exactly when nobody does.
-/

set_option autoImplicit false

namespace Unotu.Graph.Heap

open Multigraph

variable {ν ε : Type} {s : Heap ν ε} {M : Multigraph NodeId EdgeId}

/-- A node in no graph lives only as long as some caller holds it. -/
theorem owned_of_free {n : NodeId} (hfree : ∀ g, n ∉ s.graphNodes g) : s.owned n = s.held n := by
  simp [owned, hfree]

theorem release_frame (h : s.Represents M) (n : NodeId) :
    (s.release n).graphs = s.graphs ∧ (s.release n).graphNodes = s.graphNodes ∧
      (s.release n).held = s.held := by
  rcases h.mirrored.release_cases n with ⟨hsame, -⟩ | ⟨hgone, -⟩
  · rw [hsame]
    exact ⟨rfl, rfl, rfl⟩
  · rw [hgone]
    exact ⟨rfl, rfl, rfl⟩

theorem release_spec (h : s.Represents M) (hp : s.Placed) {n : NodeId}
    (hn : ∀ g, ¬ s.InGraph n g) :
    (s.release n).Placed ∧
      (s.release n).Represents (M.removeNodes {m | m = n ∧ s.held m = false}) ∧
      ∀ m g, (s.release n).InGraph m g ↔ s.InGraph m g := by
  have hown : s.owned n = s.held n :=
    owned_of_free fun g hmem => hn g ((hp.member g n).mp hmem)
  cases hheld : s.held n with
  | true =>
    have hsame : s.release n = s := by simp [release, hown, hheld]
    rw [hsame, removeNodes_eq_self]
    · exact ⟨hp, h, fun _ _ => Iff.rfl⟩
    · rintro m ⟨rfl, hm⟩
      simp [hheld] at hm
  | false =>
    have hfalse := hown.trans hheld
    rcases h.mirrored.release_cases n with ⟨hsame, hdead⟩ | ⟨hgone, hlive, -⟩
    · rw [hsame, removeNodes_eq_self]
      · exact ⟨hp, h, fun _ _ => Iff.rfl⟩
      · rintro m ⟨rfl, -⟩ hm
        rw [hdead ((h.nodes m).mpr hm)] at hfalse
        cases hfalse
    · rw [hgone]
      have hset : {m | m = n ∧ s.held m = false} = ({n} : Set NodeId) := by
        ext m
        constructor
        · exact And.left
        · rintro rfl
          exact ⟨rfl, hheld⟩
      rw [hset]
      refine ⟨?_, h.withoutNode hlive, ?_⟩
      · exact hp.withoutNode fun g => hp.notMem_of_not_owned hfalse g
      · intro m g
        rw [inGraph_withoutNode]
        constructor
        · exact And.right
        · intro hm
          refine ⟨?_, hm⟩
          rintro rfl
          exact hn g hm

theorem foldl_release_spec (h : s.Represents M) (hp : s.Placed) {ns : List NodeId}
    (hns : ∀ n ∈ ns, ∀ g, ¬ s.InGraph n g) :
    (ns.foldl release s).Placed ∧
      (ns.foldl release s).Represents (M.removeNodes {n | n ∈ ns ∧ s.held n = false}) ∧
      ∀ m g, (ns.foldl release s).InGraph m g ↔ s.InGraph m g := by
  induction ns generalizing s M with
  | nil =>
    refine ⟨hp, ?_, fun _ _ => Iff.rfl⟩
    rw [removeNodes_eq_self M (by simp)]
    exact h
  | cons n ns ih =>
    obtain ⟨hp₁, h₁, hin₁⟩ := release_spec h hp (hns n List.mem_cons_self)
    obtain ⟨hp₂, h₂, hin₂⟩ := ih h₁ hp₁ fun m hm g hmg =>
      hns m (List.mem_cons_of_mem n hm) g ((hin₁ m g).mp hmg)
    refine ⟨hp₂, ?_, fun m g => (hin₂ m g).trans (hin₁ m g)⟩
    rw [(release_frame h n).2.2, removeNodes_removeNodes] at h₂
    have hset : ({m | m = n ∧ s.held m = false} ∪ {m | m ∈ ns ∧ s.held m = false}) =
        {m | m ∈ n :: ns ∧ s.held m = false} := by
      ext m
      simp only [Set.mem_union, Set.mem_ofPred_eq, List.mem_cons, or_and_right]
    rwa [hset] at h₂

end Unotu.Graph.Heap
