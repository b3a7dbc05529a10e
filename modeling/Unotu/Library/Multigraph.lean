import Mathlib.Data.Set.Insert
import Mathlib.Logic.Function.Basic
import Mathlib.Logic.Relation
import Mathlib.Tactic.Tauto

/-!
# Directed multigraphs

Parallel edges and loops are allowed. That the endpoints of an edge are nodes is part
of the structure, so removing a node has to remove its incident edges.
-/

set_option autoImplicit false

universe u v

@[ext] structure Multigraph (N : Type u) (E : Type v) where
  nodes : Set N
  edges : Set E
  source : E → N
  target : E → N
  source_mem : ∀ {e}, e ∈ edges → source e ∈ nodes
  target_mem : ∀ {e}, e ∈ edges → target e ∈ nodes

namespace Multigraph

variable {N : Type u} {E : Type v}

/-- The edge `e` is present and `n` is one of its ends. -/
def Incident (M : Multigraph N E) (e : E) (n : N) : Prop :=
  e ∈ M.edges ∧ (M.source e = n ∨ M.target e = n)

def Adj (M : Multigraph N E) (a b : N) : Prop :=
  ∃ e ∈ M.edges, M.source e = a ∧ M.target e = b

theorem incident_source {M : Multigraph N E} {e : E} (he : e ∈ M.edges) :
    M.Incident e (M.source e) := ⟨he, Or.inl rfl⟩

theorem incident_target {M : Multigraph N E} {e : E} (he : e ∈ M.edges) :
    M.Incident e (M.target e) := ⟨he, Or.inr rfl⟩

def empty (N : Type u) (E : Type v) [Inhabited N] : Multigraph N E where
  nodes := ∅
  edges := ∅
  source _ := default
  target _ := default
  source_mem h := h.elim
  target_mem h := h.elim

/-! ## Atomic changes -/

def addNode (M : Multigraph N E) (n : N) : Multigraph N E where
  nodes := insert n M.nodes
  edges := M.edges
  source := M.source
  target := M.target
  source_mem he := Set.mem_insert_of_mem n (M.source_mem he)
  target_mem he := Set.mem_insert_of_mem n (M.target_mem he)

def addEdge [DecidableEq E] (M : Multigraph N E) (e : E) {a b : N} (ha : a ∈ M.nodes)
    (hb : b ∈ M.nodes) : Multigraph N E where
  nodes := M.nodes
  edges := insert e M.edges
  source := Function.update M.source e a
  target := Function.update M.target e b
  source_mem {f} hf := by
    by_cases h : f = e
    · subst f
      simpa using ha
    · simpa [h] using M.source_mem (hf.resolve_left h)
  target_mem {f} hf := by
    by_cases h : f = e
    · subst f
      simpa using hb
    · simpa [h] using M.target_mem (hf.resolve_left h)

def removeEdges (M : Multigraph N E) (S : Set E) : Multigraph N E where
  nodes := M.nodes
  edges := M.edges \ S
  source := M.source
  target := M.target
  source_mem he := M.source_mem he.1
  target_mem he := M.target_mem he.1

/-- The nodes in `S` go, and the edges at them with them. -/
def removeNodes (M : Multigraph N E) (S : Set N) : Multigraph N E where
  nodes := M.nodes \ S
  edges := { e ∈ M.edges | M.source e ∉ S ∧ M.target e ∉ S }
  source := M.source
  target := M.target
  source_mem he := ⟨M.source_mem he.1, he.2.1⟩
  target_mem he := ⟨M.target_mem he.1, he.2.2⟩

theorem incident_addNode (M : Multigraph N E) (n : N) (e : E) (m : N) :
    (M.addNode n).Incident e m ↔ M.Incident e m := Iff.rfl

theorem incident_addEdge [DecidableEq E] (M : Multigraph N E) {e : E} {a b : N}
    (ha : a ∈ M.nodes) (hb : b ∈ M.nodes) (hnew : e ∉ M.edges) (f : E) (m : N) :
    (M.addEdge e ha hb).Incident f m ↔ M.Incident f m ∨ (f = e ∧ (a = m ∨ b = m)) := by
  by_cases h : f = e
  · subst f
    simp [Incident, addEdge, hnew]
  · simp [Incident, addEdge, h]

theorem adj_addEdge [DecidableEq E] (M : Multigraph N E) {e : E} {a b : N} (ha : a ∈ M.nodes)
    (hb : b ∈ M.nodes) (hnew : e ∉ M.edges) {c d : N} :
    (M.addEdge e ha hb).Adj c d ↔ M.Adj c d ∨ c = a ∧ d = b := by
  constructor
  · rintro ⟨f, hf, hs, ht⟩
    by_cases hfe : f = e
    · subst f
      simp only [addEdge, Function.update_self] at hs ht
      exact Or.inr ⟨hs.symm, ht.symm⟩
    · simp only [addEdge, Function.update_of_ne hfe] at hs ht
      exact Or.inl ⟨f, hf.resolve_left hfe, hs, ht⟩
  · intro hadj
    rcases hadj with ⟨f, hf, rfl, rfl⟩ | ⟨rfl, rfl⟩
    · have hfe : f ≠ e := fun heq => hnew (heq ▸ hf)
      exact ⟨f, Or.inr hf, by simp [addEdge, hfe], by simp [addEdge, hfe]⟩
    · exact ⟨e, Or.inl rfl, by simp [addEdge], by simp [addEdge]⟩

theorem incident_removeEdges (M : Multigraph N E) (S : Set E) (e : E) (m : N) :
    (M.removeEdges S).Incident e m ↔ M.Incident e m ∧ e ∉ S := by
  simp [Incident, removeEdges, and_right_comm]

theorem incident_removeNode (M : Multigraph N E) (n : N) (e : E) (m : N) :
    (M.removeNodes {n}).Incident e m ↔ M.Incident e m ∧ ¬ M.Incident e n := by
  simp only [Incident, removeNodes, Set.mem_ofPred_eq, Set.mem_singleton_iff]
  tauto

theorem removeNodes_eq_self (M : Multigraph N E) {S : Set N} (h : ∀ n ∈ S, n ∉ M.nodes) :
    M.removeNodes S = M := by
  have hout : ∀ n ∈ M.nodes, n ∉ S := fun n hn hS => h n hS hn
  apply Multigraph.ext
  · ext n
    exact ⟨And.left, fun hn => ⟨hn, hout n hn⟩⟩
  · ext e
    refine ⟨And.left, fun he => ⟨he, ?_, ?_⟩⟩
    · exact hout _ (M.source_mem he)
    · exact hout _ (M.target_mem he)
  · rfl
  · rfl

/-- What is removed matters on the nodes only. -/
theorem removeNodes_congr (M : Multigraph N E) {S T : Set N}
    (h : ∀ n ∈ M.nodes, n ∈ S ↔ n ∈ T) : M.removeNodes S = M.removeNodes T := by
  apply Multigraph.ext
  · ext n
    exact and_congr_right fun hn => not_congr (h n hn)
  · ext e
    refine and_congr_right fun he => and_congr (not_congr ?_) (not_congr ?_)
    · exact h _ (M.source_mem he)
    · exact h _ (M.target_mem he)
  · rfl
  · rfl

theorem removeNodes_removeNodes (M : Multigraph N E) (S T : Set N) :
    (M.removeNodes S).removeNodes T = M.removeNodes (S ∪ T) := by
  apply Multigraph.ext
  · ext n
    simp [removeNodes, and_assoc]
  · ext e
    simp only [removeNodes, Set.mem_ofPred_eq, Set.mem_union, not_or]
    tauto
  · rfl
  · rfl

/-! ## Parallel edges -/

/-- The edges of `M` are edges of `K` between the same nodes. -/
def EdgesFrom (M K : Multigraph N E) : Prop :=
  ∀ e ∈ M.edges, e ∈ K.edges ∧ M.source e = K.source e ∧ M.target e = K.target e

theorem EdgesFrom.refl (M : Multigraph N E) : M.EdgesFrom M := fun _ he => ⟨he, rfl, rfl⟩

theorem EdgesFrom.trans {M K L : Multigraph N E} (h : M.EdgesFrom K) (h' : K.EdgesFrom L) :
    M.EdgesFrom L := by
  intro e he
  obtain ⟨he, hs, ht⟩ := h e he
  obtain ⟨he', hs', ht'⟩ := h' e he
  exact ⟨he', hs.trans hs', ht.trans ht'⟩

theorem edgesFrom_removeEdges (M : Multigraph N E) (S : Set E) : (M.removeEdges S).EdgesFrom M :=
  fun _ he => ⟨he.1, rfl, rfl⟩

theorem edgesFrom_removeNodes (M : Multigraph N E) (S : Set N) : (M.removeNodes S).EdgesFrom M :=
  fun _ he => ⟨he.1, rfl, rfl⟩

/-- No two edges have the same source and the same target. -/
def Simple (M : Multigraph N E) : Prop :=
  ∀ e ∈ M.edges, ∀ f ∈ M.edges, M.source e = M.source f → M.target e = M.target f → e = f

theorem Simple.of_edgesFrom {M K : Multigraph N E} (h : K.Simple) (hfrom : M.EdgesFrom K) :
    M.Simple := by
  intro e he f hf hs ht
  obtain ⟨he, hes, het⟩ := hfrom e he
  obtain ⟨hf, hfs, hft⟩ := hfrom f hf
  apply h e he f hf
  · rw [← hes, hs, hfs]
  · rw [← het, ht, hft]

/-- A new edge keeps the graph simple exactly when it joins nodes that were not joined. -/
theorem simple_addEdge_iff [DecidableEq E] {M : Multigraph N E} (h : M.Simple) {e : E} {a b : N}
    (ha : a ∈ M.nodes) (hb : b ∈ M.nodes) (hnew : e ∉ M.edges) :
    (M.addEdge e ha hb).Simple ↔ ¬ M.Adj a b := by
  have hsource : (M.addEdge e ha hb).source e = a := Function.update_self ..
  have htarget : (M.addEdge e ha hb).target e = b := Function.update_self ..
  have hold : ∀ f ∈ M.edges, (M.addEdge e ha hb).source f = M.source f ∧
      (M.addEdge e ha hb).target f = M.target f := by
    intro f hf
    have hne : f ≠ e := fun heq => hnew (heq ▸ hf)
    exact ⟨Function.update_of_ne hne .., Function.update_of_ne hne ..⟩
  constructor
  · rintro hsimple ⟨f, hf, hs, ht⟩
    obtain ⟨hfs, hft⟩ := hold f hf
    have heq : f = e := by
      apply hsimple f (Or.inr hf) e (Or.inl rfl)
      · rw [hfs, hsource, hs]
      · rw [hft, htarget, ht]
    exact hnew (heq ▸ hf)
  · intro hnot f hf f' hf' hs ht
    rcases hf with rfl | hf
    · rcases hf' with rfl | hf'
      · rfl
      · obtain ⟨hfs, hft⟩ := hold f' hf'
        rw [hsource, hfs] at hs
        rw [htarget, hft] at ht
        exact absurd ⟨f', hf', hs.symm, ht.symm⟩ hnot
    · obtain ⟨hfs, hft⟩ := hold f hf
      rcases hf' with rfl | hf'
      · rw [hsource, hfs] at hs
        rw [htarget, hft] at ht
        exact absurd ⟨f, hf, hs, ht⟩ hnot
      · obtain ⟨hfs', hft'⟩ := hold f' hf'
        rw [hfs, hfs'] at hs
        rw [hft, hft'] at ht
        exact h f hf f' hf' hs ht

inductive Change [DecidableEq E] : Multigraph N E → Multigraph N E → Prop where
  | addNode (M : Multigraph N E) (n : N) : Change M (M.addNode n)
  | addEdge (M : Multigraph N E) (e : E) {a b : N} (ha : a ∈ M.nodes) (hb : b ∈ M.nodes)
      (hnew : e ∉ M.edges) : Change M (M.addEdge e ha hb)
  | removeEdges (M : Multigraph N E) (S : Set E) : Change M (M.removeEdges S)
  | removeNode (M : Multigraph N E) (n : N) : Change M (M.removeNodes {n})

def Changes [DecidableEq E] : Multigraph N E → Multigraph N E → Prop :=
  Relation.ReflTransGen Change

end Multigraph
