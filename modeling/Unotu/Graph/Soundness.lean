import Unotu.Graph.Membership
import Unotu.Library.Runs

/-!
# Every run keeps the heap sound

A sound heap represents a multigraph and places its nodes. Each step of a caller turns a
sound heap into a sound heap, without a fault, and changes the represented multigraph by
atomic changes only.
-/

set_option autoImplicit false

namespace Unotu.Graph.Heap

open Multigraph

variable {ν ε : Type} {s : Heap ν ε} {M : Multigraph NodeId EdgeId}

/-- `t` represents a multigraph that atomic changes lead to from `M`, and is placed. -/
def Refines (M : Multigraph NodeId EdgeId) (t : Heap ν ε) : Prop :=
  t.Placed ∧ ∃ M', Changes M M' ∧ t.Represents M'

theorem Represents.refines {t : Heap ν ε} (h : t.Represents M) (hp : t.Placed) : Refines M t :=
  ⟨hp, M, .refl, h⟩

theorem Represents.refines_change {t : Heap ν ε} {M' : Multigraph NodeId EdgeId}
    (h : t.Represents M') (hp : t.Placed) (hc : Change M M') : Refines M t :=
  ⟨hp, M', .single hc, h⟩

/-! ## Destruction -/

theorem release_refines (h : s.Represents M) (hp : s.Placed) (n : NodeId) :
    Refines M (s.release n) := by
  rcases h.mirrored.release_cases n with ⟨hsame, -⟩ | ⟨hgone, hn, hown⟩
  · rw [hsame]
    exact h.refines hp
  · rw [hgone]
    refine (h.withoutNode hn).refines_change ?_ (.removeNode M n)
    exact hp.withoutNode fun g => hp.notMem_of_not_owned hown g

theorem foldl_release_refines (h : s.Represents M) (hp : s.Placed) (ns : List NodeId) :
    Refines M (ns.foldl release s) := by
  induction ns generalizing s M with
  | nil => exact h.refines hp
  | cons n ns ih =>
    obtain ⟨hp₁, M₁, hc₁, h₁⟩ := release_refines h hp n
    obtain ⟨hp₂, M₂, hc₂, h₂⟩ := ih h₁ hp₁
    exact ⟨hp₂, M₂, hc₁.trans hc₂, h₂⟩

/-! ## `NodeRemoveAll` -/

theorem foldl_clearParent_represents (h : s.Represents M) (ns : List NodeId) :
    (ns.foldl clearParent s).Represents M := by
  induction ns generalizing s with
  | nil => exact h
  | cons n ns ih => exact ih (h.clearParent n)

theorem inGraph_foldl_clearParent (ns : List NodeId) (m : NodeId) (g : GraphId) :
    (ns.foldl clearParent s).InGraph m g ↔ m ∉ ns ∧ s.InGraph m g := by
  induction ns generalizing s with
  | nil => simp
  | cons n ns ih =>
    rw [List.foldl_cons, ih, inGraph_clearParent, List.mem_cons, not_or]
    constructor
    · rintro ⟨hns, hn, hin⟩
      exact ⟨⟨hn, hns⟩, hin⟩
    · rintro ⟨⟨hn, hns⟩, hin⟩
      exact ⟨hns, hn, hin⟩

theorem foldl_clearParent_graphNodes (ns : List NodeId) :
    (ns.foldl clearParent s).graphNodes = s.graphNodes ∧
      (ns.foldl clearParent s).graphs = s.graphs := by
  induction ns generalizing s with
  | nil => exact ⟨rfl, rfl⟩
  | cons n ns ih => exact ih (s := s.clearParent n)

theorem foldl_clearParent_held (ns : List NodeId) : (ns.foldl clearParent s).held = s.held := by
  induction ns generalizing s with
  | nil => rfl
  | cons n ns ih => exact ih (s := s.clearParent n)

/-- The heap between the two halves of `NodeRemoveAll`. -/
def detachAll (s : Heap ν ε) (g : GraphId) : Heap ν ε :=
  ((s.graphNodes g).elems.foldl clearParent s).setGraphNodes g ∅

theorem detachAll_represents (h : s.Represents M) (g : GraphId) : (s.detachAll g).Represents M :=
  (foldl_clearParent_represents h _).setGraphNodes g ∅

theorem inGraph_detachAll {g g' : GraphId} {m : NodeId} :
    (s.detachAll g).InGraph m g' ↔ m ∉ s.graphNodes g ∧ s.InGraph m g' :=
  inGraph_foldl_clearParent _ m g'

theorem detachAll_placed (hp : s.Placed) (g : GraphId) : (s.detachAll g).Placed := by
  have hfold := foldl_clearParent_graphNodes (s := s) (s.graphNodes g).elems
  refine ⟨?_, ?_⟩
  · intro g' m
    rw [inGraph_detachAll, detachAll, mem_setGraphNodes, hfold.1, ← hp.member g' m]
    split
    · subst g'
      simp
    · rename_i hne
      constructor
      · intro hm
        refine ⟨fun hm' => hne ?_, hm⟩
        exact ((hp.member g' m).mp hm).unique ((hp.member g m).mp hm')
      · exact And.right
  · intro g' m hm
    rw [detachAll, mem_setGraphNodes, hfold.1] at hm
    change g' ∈ ((s.graphNodes g).elems.foldl clearParent s).graphs
    rw [hfold.2]
    split at hm
    · simp at hm
    · exact hp.alive g' m hm

theorem nodeRemoveAll_refines (h : s.Represents M) (hp : s.Placed) (g : GraphId) :
    Refines M (s.nodeRemoveAll g) :=
  foldl_release_refines (detachAll_represents h g) (detachAll_placed hp g) _

/-! ## `NodeAdd` -/

theorem isLive_nodeRemove (h : s.Represents M) (g : GraphId) (p : NodePtr) (n : NodeId) :
    (s.nodeRemove g p).isLive n = s.isLive n := by
  rw [Bool.eq_iff_iff, (h.nodeRemove g p).nodes, h.nodes]

/-- `NodeAdd` never meets a destroyed parent graph, and ends with the node in this graph. -/
theorem nodeAdd_spec (h : s.Represents M) (hp : s.Placed) {g : GraphId} {n : NodeId}
    (hg : g ∈ s.graphs) (hn : s.isLive n) :
    ∃ t, s.nodeAdd g n = .ok t ∧ t.Placed ∧ t.Represents M ∧
      ∀ m g', t.InGraph m g' ↔ if m = n then g' = g else s.InGraph m g' := by
  unfold nodeAdd
  split
  · rename_i hsame
    have hin : s.InGraph n g := inGraph_iff.mpr ⟨hn, hsame⟩
    refine ⟨s, rfl, hp, h, ?_⟩
    intro m g'
    split
    · subst m
      exact ⟨fun hin' => hin'.unique hin, fun heq => heq ▸ hin⟩
    · exact Iff.rfl
  · split
    · rename_i hnone
      have hfree : ∀ g', ¬ s.InGraph n g' := by
        intro g' hin
        rw [inGraph_iff, hnone] at hin
        cases hin.2
      refine ⟨_, rfl, hp.enterGraph hg hn hfree, h.enterGraph g n, ?_⟩
      intro m g'
      exact inGraph_enterGraph hn
    · rename_i g₀ hg₀
      have hin : s.InGraph n g₀ := inGraph_iff.mpr ⟨hn, hg₀⟩
      have hmem := (hp.member g₀ n).mpr hin
      have hlive : (s.nodeRemove g₀ (.obj n)).isLive n := by rwa [isLive_nodeRemove h]
      have hgraphs : g ∈ (s.nodeRemove g₀ (.obj n)).graphs := by
        simpa [Heap.nodeRemove, hmem, setGraphNodes, clearParent, modifyNode] using hg
      refine ⟨_, if_pos (hp.alive g₀ n hmem), ?_, (h.nodeRemove g₀ _).enterGraph g n, ?_⟩
      · exact (hp.nodeRemove g₀ _).enterGraph hgraphs hlive (hp.not_inGraph_nodeRemove hin)
      · intro m g'
        rw [inGraph_enterGraph hlive]
        split
        · exact Iff.rfl
        · rename_i hm
          simp only [Heap.nodeRemove, hmem, if_true, inGraph_clearParent]
          exact and_iff_right hm

/-! ## `ConnectTo` -/

/-- A null pointer comes back exactly for a node that the graph does not list. -/
theorem nodeGetShared_eq (s : Heap ν ε) (g : GraphId) (n : NodeId) :
    s.nodeGetShared g n = if n ∈ s.graphNodes g then .obj n else .null := by
  unfold nodeGetShared
  cases hfind : (s.graphNodes g).elems.find? fun Item => decide (Item = n) with
  | none =>
    have hn : n ∉ s.graphNodes g := by
      intro hmem
      simpa using List.find?_eq_none.mp hfind n hmem
    rw [if_neg hn]
  | some Item =>
    have heq : Item = n := by simpa using List.find?_some hfind
    have hn : n ∈ s.graphNodes g := heq ▸ List.mem_of_find?_eq_some hfind
    rw [if_pos hn, heq]

theorem nodeGetShared_of_mem {g : GraphId} {n : NodeId} (h : n ∈ s.graphNodes g) :
    s.nodeGetShared g n = .obj n := by
  rw [nodeGetShared_eq, if_pos h]

theorem connectTo_cases (hp : s.Placed) {this : NodeId} {Destination : NodePtr}
    (hthis : s.isLive this) (hpass : s.canPass Destination) (Data : ε) (e : EdgeId) :
    (s.connectTo this Destination Data e = .ok (false, s) ∧
      ∀ d g, Destination = .obj d → s.InGraph this g → ¬ s.InGraph d g) ∨
    ∃ d g, Destination = .obj d ∧ s.InGraph this g ∧ s.InGraph d g ∧
      s.connectTo this Destination Data e = .ok (true, s.addEdge this d e ⟨this, d, Data⟩) := by
  cases Destination with
  | null => exact Or.inl ⟨rfl, fun d g hd => by cases hd⟩
  | obj d =>
    have hd : s.isLive d := hpass
    cases hg : s.parentGraphOf this with
    | none =>
      refine Or.inl ⟨by simp [connectTo, hg], ?_⟩
      intro d' g _ hin
      rw [inGraph_iff, hg] at hin
      cases hin.2
    | some g =>
      have hin : s.InGraph this g := inGraph_iff.mpr ⟨hthis, hg⟩
      by_cases hdg : s.parentGraphOf d = some g
      · have hmem := (hp.member g this).mpr hin
        refine Or.inr ⟨d, g, rfl, hin, inGraph_iff.mpr ⟨hd, hdg⟩, ?_⟩
        simp [connectTo, hg, hdg, hp.alive g this hmem, nodeGetShared_of_mem hmem,
          GraphEdge.make, Except.map]
      · refine Or.inl ⟨by simp [connectTo, hg, hdg], ?_⟩
        rintro d' g' hd' hin' hing
        cases hd'
        obtain rfl := hin.unique hin'
        exact hdg (inGraph_iff.mp hing).2

theorem holds_insertEdge {n m : NodeId} {e f : EdgeId} (hn : s.isLive n) :
    (s.insertEdge n e).Holds m f ↔ s.Holds m f ∨ (f = e ∧ n = m) := by
  obtain ⟨node, hnode⟩ := isLive_iff.mp hn
  by_cases hm : m = n
  · subst m
    simp [Holds, insertEdge, modifyNode, hnode, or_comm]
  · simp [Holds, insertEdge, modifyNode, hm, Ne.symm hm]

theorem holds_addEdge {this d m : NodeId} {e f : EdgeId} {Edge : GraphEdge ε}
    (hthis : s.isLive this) (hd : s.isLive d) :
    (s.addEdge this d e Edge).Holds m f ↔ s.Holds m f ∨ (f = e ∧ (this = m ∨ d = m)) := by
  let created : Heap ν ε := { s with edges := Function.update s.edges e (some Edge) }
  have hthis' : created.isLive this := hthis
  have hd' : (created.insertEdge this e).isLive d := by
    rw [insertEdge, isLive_modifyNode]
    exact hd
  change ((created.insertEdge this e).insertEdge d e).Holds m f ↔ _
  rw [holds_insertEdge hd', holds_insertEdge hthis', or_assoc, ← and_or_left]
  exact Iff.rfl

theorem isLive_addEdge {this d m : NodeId} {e : EdgeId} {Edge : GraphEdge ε} :
    (s.addEdge this d e Edge).isLive m = s.isLive m := by
  rw [addEdge, insertEdge, isLive_modifyNode, insertEdge, isLive_modifyNode]
  rfl

theorem inGraph_addEdge {this d : NodeId} {e : EdgeId} {Edge : GraphEdge ε} {n : NodeId}
    {g : GraphId} : (s.addEdge this d e Edge).InGraph n g ↔ s.InGraph n g := by
  have hkeep : ∀ (t : Heap ν ε) (m : NodeId), (t.insertEdge m e).InGraph n g ↔ t.InGraph n g :=
    fun _ _ => inGraph_modifyNode fun _ => rfl
  rw [addEdge, hkeep, hkeep]
  exact Iff.rfl

theorem addEdge_placed (hp : s.Placed) (this d : NodeId) (e : EdgeId) (Edge : GraphEdge ε) :
    (s.addEdge this d e Edge).Placed :=
  hp.congr (fun _ _ => inGraph_addEdge) rfl rfl

theorem addEdge_represents (h : s.Represents M) {this d : NodeId} {e : EdgeId} (Data : ε)
    (hthis : this ∈ M.nodes) (hd : d ∈ M.nodes) (hfresh : s.edges e = none) :
    e ∉ M.edges ∧ (s.addEdge this d e ⟨this, d, Data⟩).Represents (M.addEdge e hthis hd) := by
  have hnew : e ∉ M.edges := by
    intro he
    obtain ⟨edge, hedge, -⟩ := h.ends e he
    rw [hfresh] at hedge
    cases hedge
  refine ⟨hnew, ?_, ?_, ?_⟩
  · intro n
    rw [isLive_addEdge]
    exact h.nodes n
  · intro n f
    rw [holds_addEdge ((h.nodes this).mpr hthis) ((h.nodes d).mpr hd),
      incident_addEdge M hthis hd hnew, h.holds]
  · intro f hf
    by_cases hfe : f = e
    · subst f
      refine ⟨⟨this, d, Data⟩, ?_⟩
      simp [addEdge, insertEdge, modifyNode, Multigraph.addEdge]
    · obtain ⟨edge, hedge, hends⟩ := h.ends f (hf.resolve_left hfe)
      refine ⟨edge, ?_⟩
      simpa [addEdge, insertEdge, modifyNode, Multigraph.addEdge, hfe, hedge] using hends

theorem connectTo_refines (h : s.Represents M) (hp : s.Placed) {this : NodeId}
    {Destination : NodePtr} (hthis : s.isLive this) (hpass : s.canPass Destination) (Data : ε)
    {e : EdgeId} (hfresh : s.edges e = none) :
    ∃ r, s.connectTo this Destination Data e = .ok r ∧ Refines M r.2 := by
  rcases connectTo_cases hp hthis hpass Data e with ⟨heq, -⟩ | ⟨d, g, -, hin, hind, heq⟩
  · exact ⟨_, heq, h.refines hp⟩
  · have hthisM := (h.nodes this).mp hthis
    have hdM := (h.nodes d).mp hind.isLive
    obtain ⟨hnew, hrep⟩ := addEdge_represents h Data hthisM hdM hfresh
    exact ⟨_, heq, hrep.refines_change (addEdge_placed hp _ _ _ _) (.addEdge M e hthisM hdM hnew)⟩

/-! ## Steps and runs -/

theorem inGraph_makeGraph (g : GraphId) (n : NodeId) (g' : GraphId) :
    (s.makeGraph g).InGraph n g' ↔ s.InGraph n g' := by
  unfold makeGraph
  split <;> exact Iff.rfl

theorem makeGraph_represents (h : s.Represents M) (g : GraphId) : (s.makeGraph g).Represents M := by
  unfold makeGraph
  split
  · exact h
  · exact Represents.congr h (fun _ => rfl) (fun _ _ => Iff.rfl) rfl

theorem makeGraph_placed (hp : s.Placed) (g : GraphId) : (s.makeGraph g).Placed := by
  refine ⟨?_, ?_⟩
  · intro g' n
    rw [inGraph_makeGraph, ← hp.member g' n]
    unfold makeGraph
    split
    · exact Iff.rfl
    · rename_i hg
      change n ∈ (s.setGraphNodes g ∅).graphNodes g' ↔ _
      rw [mem_setGraphNodes]
      split
      · subst g'
        exact iff_of_false (OrderedSet.notMem_empty n) fun hn => hg (hp.alive g n hn)
      · exact Iff.rfl
  · intro g' n hn
    unfold makeGraph at hn ⊢
    split at hn
    · rename_i hg
      rw [if_pos hg]
      exact hp.alive g' n hn
    · rename_i hg
      rw [if_neg hg]
      change n ∈ (s.setGraphNodes g ∅).graphNodes g' at hn
      rw [mem_setGraphNodes] at hn
      split at hn
      · simp at hn
      · exact OrderedSet.mem_insert.mpr (Or.inr (hp.alive g' n hn))

theorem makeNode_of_used {n : NodeId} (hused : s.nodes n ≠ .unused) (Data : ν) :
    s.makeNode n Data = s := by
  unfold makeNode
  split
  · rename_i h
    exact absurd h hused
  · rfl

theorem inGraph_makeNode {n : NodeId} (hunused : s.nodes n = .unused) (Data : ν) (m : NodeId)
    (g : GraphId) : (s.makeNode n Data).InGraph m g ↔ s.InGraph m g := by
  simp only [makeNode, hunused]
  by_cases hm : m = n
  · subst m
    simp [InGraph, hunused]
  · simp [InGraph, hm]

theorem makeNode_represents (h : s.Represents M) {n : NodeId} (hunused : s.nodes n = .unused)
    (Data : ν) : (s.makeNode n Data).Represents (M.addNode n) := by
  simp only [makeNode, hunused]
  refine ⟨?_, ?_, h.ends⟩
  · intro m
    by_cases hm : m = n
    · subst m
      simp [isLive_iff, addNode]
    · have hiff : (m ∈ (M.addNode n).nodes) ↔ m ∈ M.nodes := by simp [addNode, hm]
      rw [hiff, ← h.nodes m]
      simp [isLive_iff, hm]
  · intro m e
    rw [incident_addNode, ← h.holds]
    by_cases hm : m = n
    · subst m
      simp [Holds, hunused]
    · simp [Holds, hm]

theorem makeNode_placed (hp : s.Placed) {n : NodeId} (hunused : s.nodes n = .unused) (Data : ν) :
    (s.makeNode n Data).Placed := by
  refine hp.congr (inGraph_makeNode hunused Data) ?_ ?_ <;> simp [makeNode, hunused]

theorem makeNode_refines (h : s.Represents M) (hp : s.Placed) (n : NodeId) (Data : ν) :
    Refines M (s.makeNode n Data) := by
  by_cases hunused : s.nodes n = .unused
  · exact (makeNode_represents h hunused Data).refines_change (makeNode_placed hp hunused Data)
      (.addNode M n)
  · rw [makeNode_of_used hunused]
    exact h.refines hp

theorem step_refines (h : s.Represents M) (hp : s.Placed) (op : Op ν ε) :
    ∃ t, s.step op = .ok t ∧ Refines M t := by
  cases op with
  | makeGraph g => exact ⟨_, rfl, (makeGraph_represents h g).refines (makeGraph_placed hp g)⟩
  | makeNode n Data => exact ⟨_, rfl, makeNode_refines h hp n Data⟩
  | holdNode n =>
    refine ⟨_, rfl, ?_⟩
    unfold holdNode
    split
    · exact (h.setHeld n true).refines (hp.setHeld n true)
    · exact h.refines hp
  | dropNode n =>
    refine ⟨_, rfl, ?_⟩
    unfold dropNode
    split
    · exact release_refines (h.setHeld n false) (hp.setHeld n false) n
    · exact h.refines hp
  | nodeAdd g n =>
    by_cases hc : g ∈ s.graphs ∧ s.isLive n
    · obtain ⟨t, ht, htp, hrep, -⟩ := nodeAdd_spec h hp hc.1 hc.2
      exact ⟨t, by simp [step, hc, ht], hrep.refines htp⟩
    · exact ⟨s, if_neg hc, h.refines hp⟩
  | nodeRemove g n =>
    refine ⟨_, rfl, ?_⟩
    split
    · exact release_refines (h.nodeRemove g _) (hp.nodeRemove g _) n
    · exact h.refines hp
  | nodeRemoveAll g =>
    refine ⟨_, rfl, ?_⟩
    split
    · exact nodeRemoveAll_refines h hp g
    · exact h.refines hp
  | connectTo this Destination Data e =>
    by_cases hc : s.isLive this ∧ s.canPass Destination ∧ s.edges e = none
    · obtain ⟨r, hr, href⟩ := connectTo_refines h hp hc.1 hc.2.1 Data hc.2.2
      exact ⟨r.2, by simp [step, hc, hr, Except.map], href⟩
    · exact ⟨s, if_neg hc, h.refines hp⟩
  | cut e =>
    refine ⟨_, rfl, (h.cut e).refines_change ?_ (.removeEdges M _)⟩
    rw [h.mirrored.cut_eq]
    exact hp.congr (fun _ _ => inGraph_eraseEdges) rfl rfl

def Sound (s : Heap ν ε) : Prop := s.Placed ∧ ∃ M, s.Represents M

theorem empty_placed : (Heap.empty : Heap ν ε).Placed := by
  refine ⟨?_, ?_⟩
  · intro g n
    simp [Heap.empty, InGraph]
  · intro g n hn
    simp [Heap.empty] at hn

theorem empty_represents :
    (Heap.empty : Heap ν ε).Represents (Multigraph.empty NodeId EdgeId) := by
  refine ⟨?_, ?_, ?_⟩
  · intro n
    simp [isLive_iff, Heap.empty, Multigraph.empty]
  · intro n e
    simp [Holds, Heap.empty, Incident, Multigraph.empty]
  · intro e he
    simp [Multigraph.empty] at he

theorem sound_empty : (Heap.empty : Heap ν ε).Sound :=
  ⟨empty_placed, _, empty_represents⟩

theorem step_sound (h : s.Sound) (op : Op ν ε) : ∃ t, s.step op = .ok t ∧ t.Sound := by
  obtain ⟨hp, M, hrep⟩ := h
  obtain ⟨t, ht, htp, M', -, hrep'⟩ := step_refines hrep hp op
  exact ⟨t, ht, htp, M', hrep'⟩

theorem run_sound (ops : List (Op ν ε)) :
    ∃ s, Runs.run step Heap.empty ops = .ok s ∧ s.Sound :=
  Runs.run_invariant step (fun _ op h => step_sound h op) sound_empty ops

end Unotu.Graph.Heap
