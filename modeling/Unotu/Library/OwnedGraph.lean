import Mathlib.Data.Set.Basic
import Unotu.Library.Multigraph

/-!
# Graphs whose nodes live as long as somebody owns them

A node is owned by the holders outside or by the one group it is at home in. Nothing else
keeps it: `settle` takes away what an owner gave up, with the edges at it. Every node of the
structure has an owner, and what has no node has no owner.
-/

set_option autoImplicit false

universe u v w x

structure OwnedGraph (N : Type u) (E : Type v) (G : Type w) (D : Type x) where
  graph : Multigraph N E
  groups : Set G
  home : N → Option G
  held : Set N
  /-- The nodes that were ever made, and the ends of every edge that was. -/
  usedNodes : Set N
  ends : E → Option (N × N)
  datum : N → Option D
  owned : ∀ n ∈ graph.nodes, n ∈ held ∨ home n ≠ none
  held_mem : ∀ n ∈ held, n ∈ graph.nodes
  home_mem : ∀ n g, home n = some g → n ∈ graph.nodes ∧ g ∈ groups
  used : ∀ n ∈ graph.nodes, n ∈ usedNodes
  ends_eq : ∀ e ∈ graph.edges, ends e = some (graph.source e, graph.target e)

namespace OwnedGraph

variable {N : Type u} {E : Type v} {G : Type w} {D : Type x}

def empty [Inhabited N] : OwnedGraph N E G D where
  graph := Multigraph.empty N E
  groups := ∅
  home _ := none
  held := ∅
  usedNodes := ∅
  ends _ := none
  datum _ := none
  owned _ h := h.elim
  held_mem _ h := h.elim
  home_mem _ _ h := by cases h
  used _ h := h.elim
  ends_eq _ h := h.elim

/-- What is left when the holders and the groups own no more than `held` and `home` say. -/
def settle (o : OwnedGraph N E G D) (groups : Set G) (home : N → Option G) (held : Set N)
    (hhome : ∀ n g, home n = some g → o.home n = some g ∧ g ∈ groups)
    (hheld : ∀ n ∈ held, n ∈ o.held) : OwnedGraph N E G D where
  graph := o.graph.removeNodes {n | n ∉ held ∧ home n = none}
  groups := groups
  home := home
  held := held
  usedNodes := o.usedNodes
  ends := o.ends
  datum := o.datum
  owned n hn := by
    by_contra hnot
    rw [not_or, not_not] at hnot
    exact hn.2 hnot
  held_mem n hn := ⟨o.held_mem n (hheld n hn), fun hnot => hnot.1 hn⟩
  home_mem n g hg := by
    obtain ⟨hold, hgroup⟩ := hhome n g hg
    refine ⟨⟨(o.home_mem n g hold).1, ?_⟩, hgroup⟩
    intro hnot
    rw [hnot.2] at hg
    cases hg
  used n hn := o.used n hn.1
  ends_eq e he := o.ends_eq e he.1

def addGroup (o : OwnedGraph N E G D) (g : G) : OwnedGraph N E G D where
  __ := o
  groups := insert g o.groups
  home_mem n g' hg := by
    obtain ⟨hn, hg'⟩ := o.home_mem n g' hg
    exact ⟨hn, Set.mem_insert_of_mem g hg'⟩

section

open Classical

variable (o : OwnedGraph N E G D)

/-- A new node, held by who made it. A node that was used before is not made again. -/
noncomputable def addNode [DecidableEq N] (n : N) (d : D) : OwnedGraph N E G D :=
  if hused : n ∈ o.usedNodes then o else
  { graph := o.graph.addNode n
    groups := o.groups
    home := o.home
    held := insert n o.held
    usedNodes := insert n o.usedNodes
    ends := o.ends
    datum := Function.update o.datum n (some d)
    owned := by
      intro m hm
      rcases hm with rfl | hm
      · exact Or.inl (Set.mem_insert m o.held)
      · exact (o.owned m hm).imp_left (Set.mem_insert_of_mem n)
    held_mem := by
      intro m hm
      rcases hm with rfl | hm
      · exact Set.mem_insert m o.graph.nodes
      · exact Set.mem_insert_of_mem n (o.held_mem m hm)
    home_mem := by
      intro m g hg
      obtain ⟨hm, hgroup⟩ := o.home_mem m g hg
      exact ⟨Set.mem_insert_of_mem n hm, hgroup⟩
    used := by
      intro m hm
      rcases hm with rfl | hm
      · exact Set.mem_insert m o.usedNodes
      · exact Set.mem_insert_of_mem n (o.used m hm)
    ends_eq := o.ends_eq }

noncomputable def hold (n : N) : OwnedGraph N E G D :=
  if hn : n ∈ o.graph.nodes then
    { o with
      held := insert n o.held
      owned := fun m hm => (o.owned m hm).imp_left (Set.mem_insert_of_mem n)
      held_mem := by
        intro m hm
        rcases hm with rfl | hm
        · exact hn
        · exact o.held_mem m hm }
  else o

def drop (n : N) : OwnedGraph N E G D :=
  o.settle o.groups o.home (o.held \ {n}) (fun m g hg => ⟨hg, (o.home_mem m g hg).2⟩)
    fun _ hm => hm.1

/-- The node moves into the group, from wherever it was at home. -/
noncomputable def enter [DecidableEq N] (g : G) (n : N) : OwnedGraph N E G D :=
  if hgn : g ∈ o.groups ∧ n ∈ o.graph.nodes then
    { o with
      home := Function.update o.home n (some g)
      owned := by
        intro m hm
        by_cases hmn : m = n
        · subst m
          simp
        · rw [Function.update_of_ne hmn]
          exact o.owned m hm
      home_mem := by
        intro m g' hg'
        by_cases hmn : m = n
        · subst m
          rw [Function.update_self, Option.some.injEq] at hg'
          exact ⟨hgn.2, hg' ▸ hgn.1⟩
        · rw [Function.update_of_ne hmn] at hg'
          exact o.home_mem m g' hg' }
  else o

/-- Where the nodes are at home once the group has given up those of its nodes in `S`. -/
noncomputable def homeAfter (g : G) (S : Set N) (n : N) : Option G :=
  if o.home n = some g ∧ n ∈ S then none else o.home n

theorem homeAfter_eq_some {g g' : G} {S : Set N} {n : N} :
    o.homeAfter g S n = some g' ↔ o.home n = some g' ∧ ¬ (o.home n = some g ∧ n ∈ S) := by
  unfold homeAfter
  split
  · rename_i hn
    exact iff_of_false (by simp) fun hnot => hnot.2 hn
  · rename_i hn
    exact (and_iff_left hn).symm

theorem homeAfter_eq_none {g : G} {S : Set N} {n : N} :
    o.homeAfter g S n = none ↔ o.home n = none ∨ o.home n = some g ∧ n ∈ S := by
  unfold homeAfter
  split
  · rename_i hn
    exact iff_of_true rfl (Or.inr hn)
  · rename_i hn
    exact (or_iff_left hn).symm

noncomputable def leave (g : G) (S : Set N) : OwnedGraph N E G D :=
  o.settle o.groups (o.homeAfter g S) o.held
    (by
      intro n g' hg
      have hold := (o.homeAfter_eq_some.mp hg).1
      exact ⟨hold, (o.home_mem n g' hold).2⟩)
    fun _ hn => hn

/-- The group gives up all its nodes and is no more. -/
noncomputable def dissolve (g : G) : OwnedGraph N E G D :=
  o.settle (o.groups \ {g}) (o.homeAfter g Set.univ) o.held
    (by
      intro n g' hg
      obtain ⟨hold, hne⟩ := o.homeAfter_eq_some.mp hg
      refine ⟨hold, (o.home_mem n g' hold).2, ?_⟩
      rintro rfl
      exact hne ⟨hold, Set.mem_univ n⟩)
    fun _ hn => hn

/-- Both nodes are at home in one group, and the edge was never made. -/
def Connectable (a b : N) (e : E) : Prop :=
  o.ends e = none ∧ o.home a ≠ none ∧ o.home b = o.home a

theorem Connectable.mem {o : OwnedGraph N E G D} {a b : N} {e : E} (h : o.Connectable a b e) :
    a ∈ o.graph.nodes ∧ b ∈ o.graph.nodes := by
  obtain ⟨-, ha, hb⟩ := h
  obtain ⟨g, hg⟩ := Option.ne_none_iff_exists'.mp ha
  exact ⟨(o.home_mem a g hg).1, (o.home_mem b g (hb.trans hg)).1⟩

noncomputable def connect [DecidableEq E] (a b : N) (e : E) : OwnedGraph N E G D :=
  if h : o.Connectable a b e then
    { o with
      graph := o.graph.addEdge e h.mem.1 h.mem.2
      ends := Function.update o.ends e (some (a, b))
      owned := o.owned
      held_mem := o.held_mem
      home_mem := o.home_mem
      used := o.used
      ends_eq := by
        intro f hf
        by_cases hfe : f = e
        · subst f
          simp [Multigraph.addEdge]
        · simpa [Multigraph.addEdge, hfe] using o.ends_eq f (hf.resolve_left hfe) }
  else o

def cut (e : E) : OwnedGraph N E G D where
  __ := o
  graph := o.graph.removeEdges {e}
  ends_eq f hf := o.ends_eq f hf.1

noncomputable def assign [DecidableEq N] (n : N) (f : D → D) : OwnedGraph N E G D :=
  { o with
    datum := if n ∈ o.graph.nodes then Function.update o.datum n ((o.datum n).map f) else o.datum }

end

end OwnedGraph
