import Unotu.Graph.Soundness

/-!
# Neighbours as the code computes them

In a sound heap the sets `ConnectedIncomingGet` and `ConnectedOutgoingGet` are the
predecessors and the successors in the represented multigraph.
-/

set_option autoImplicit false

namespace Unotu.Graph.Heap

open Multigraph

variable {ν ε : Type} {s : Heap ν ε} {M : Multigraph NodeId EdgeId}

theorem lock_of_isLive {n : NodeId} (h : s.isLive n) : s.lock n = .obj n := by
  obtain ⟨node, hnode⟩ := isLive_iff.mp h
  exact lock_of_live hnode

theorem mem_edgesOf_iff_holds {n : NodeId} (hn : s.isLive n) {e : EdgeId} :
    e ∈ s.edgesOf n ↔ s.Holds n e := by
  obtain ⟨node, hnode⟩ := isLive_iff.mp hn
  rw [edgesOf_of_live hnode, holds_iff_of_live hnode]

namespace Represents

theorem sourceGet_eq (h : s.Represents M) {e : EdgeId} (he : e ∈ M.edges) :
    s.sourceGet e = .obj (M.source e) := by
  obtain ⟨edge, hedge, hs, -⟩ := h.ends e he
  rw [sourceGet, hedge]
  change s.lock edge.source = _
  rw [hs]
  exact lock_of_isLive ((h.nodes _).mpr (M.source_mem he))

theorem destinationGet_eq (h : s.Represents M) {e : EdgeId} (he : e ∈ M.edges) :
    s.destinationGet e = .obj (M.target e) := by
  obtain ⟨edge, hedge, -, hd⟩ := h.ends e he
  rw [destinationGet, hedge]
  change s.lock edge.destination = _
  rw [hd]
  exact lock_of_isLive ((h.nodes _).mpr (M.target_mem he))

theorem mem_edgesOf (h : s.Represents M) {n : NodeId} (hn : s.isLive n) {e : EdgeId} :
    e ∈ s.edgesOf n ↔ M.Incident e n := by
  rw [mem_edgesOf_iff_holds hn, h.holds]

/-- No weak pointer of an edge in the set has expired, so no null pointer is erased. -/
theorem mem_connectedIncomingGet (h : s.Represents M) {b : NodeId} (hb : s.isLive b)
    (p : NodePtr) : p ∈ s.connectedIncomingGet b ↔ ∃ a, p = .obj a ∧ M.Adj a b := by
  simp only [connectedIncomingGet, OrderedSet.mem_erase, OrderedSet.mem_collect,
    OrderedSet.mem_elems, Option.ite_none_right_eq_some, Option.some.injEq]
  constructor
  · rintro ⟨⟨e, he, htarget, rfl⟩, -⟩
    have hM := ((h.mem_edgesOf hb).mp he).1
    rw [h.destinationGet_eq hM, NodePtr.obj.injEq] at htarget
    exact ⟨M.source e, h.sourceGet_eq hM, e, hM, rfl, htarget⟩
  · rintro ⟨a, rfl, e, he, rfl, rfl⟩
    refine ⟨⟨e, (h.mem_edgesOf hb).mpr (incident_target he), ?_, h.sourceGet_eq he⟩, ?_⟩
    · exact h.destinationGet_eq he
    · exact NodePtr.noConfusion

theorem mem_connectedOutgoingGet (h : s.Represents M) {a : NodeId} (ha : s.isLive a)
    (p : NodePtr) : p ∈ s.connectedOutgoingGet a ↔ ∃ b, p = .obj b ∧ M.Adj a b := by
  simp only [connectedOutgoingGet, OrderedSet.mem_erase, OrderedSet.mem_collect,
    OrderedSet.mem_elems, Option.ite_none_right_eq_some, Option.some.injEq]
  constructor
  · rintro ⟨⟨e, he, hsource, rfl⟩, -⟩
    have hM := ((h.mem_edgesOf ha).mp he).1
    rw [h.sourceGet_eq hM, NodePtr.obj.injEq] at hsource
    exact ⟨M.target e, h.destinationGet_eq hM, e, hM, hsource, rfl⟩
  · rintro ⟨b, rfl, e, he, rfl, rfl⟩
    refine ⟨⟨e, (h.mem_edgesOf ha).mpr (incident_source he), ?_, h.destinationGet_eq he⟩, ?_⟩
    · exact h.sourceGet_eq he
    · exact NodePtr.noConfusion

end Represents

/-! ## Edges are stored symmetrically -/

/-- A node's set holds only edges at that node, whose ends are alive and both hold them. -/
structure EdgeSymmetric (s : Heap ν ε) : Prop where
  endpoint : ∀ n e, s.Holds n e →
    ∃ edge, s.edges e = some edge ∧ (edge.source = n ∨ edge.destination = n)
  both : ∀ e edge, s.edges e = some edge → s.isLive edge.source → s.isLive edge.destination →
    (s.Holds edge.source e ↔ s.Holds edge.destination e)
  noneDestroyed : ∀ n e edge, s.Holds n e → s.edges e = some edge →
    s.isLive edge.source ∧ s.isLive edge.destination

theorem Sound.edgeSymmetric (h : s.Sound) : s.EdgeSymmetric := by
  obtain ⟨-, M, hrep⟩ := h
  refine ⟨fun n e hn => hrep.mirrored.recorded hn, ?_, ?_⟩
  · intro e edge hedge hs hd
    constructor
    · exact fun hn => hrep.mirrored.destination hn hedge hd
    · exact fun hn => hrep.mirrored.source hn hedge hs
  · intro n e edge hn hedge
    have he := hrep.mem_edges hn
    obtain ⟨hs, hd⟩ := hrep.ends_of_edge he hedge
    rw [hs, hd]
    exact ⟨(hrep.nodes _).mpr (M.source_mem he), (hrep.nodes _).mpr (M.target_mem he)⟩

theorem Sound.outgoing_iff_incoming (h : s.Sound) {a b : NodeId} (ha : s.isLive a)
    (hb : s.isLive b) :
    .obj b ∈ s.connectedOutgoingGet a ↔ .obj a ∈ s.connectedIncomingGet b := by
  obtain ⟨-, M, hrep⟩ := h
  rw [hrep.mem_connectedOutgoingGet ha, hrep.mem_connectedIncomingGet hb]
  simp

/-- After every run of the operations the copies of each edge agree, and outgoing and
incoming neighbours mirror each other. -/
theorem run_edgeSymmetric (ops : List (Op ν ε)) :
    ∃ s, Runs.run step Heap.empty ops = .ok s ∧ s.EdgeSymmetric ∧
      ∀ a b, s.isLive a → s.isLive b →
        (.obj b ∈ s.connectedOutgoingGet a ↔ .obj a ∈ s.connectedIncomingGet b) := by
  obtain ⟨s, hs, hsound⟩ := run_sound ops
  exact ⟨s, hs, hsound.edgeSymmetric, fun a b ha hb => hsound.outgoing_iff_incoming ha hb⟩

/-! ## Membership agrees in both directions -/

/-- What membership in graphs means in one state, for each of its graphs and nodes. -/
structure MembershipAgrees (s : Heap ν ε) : Prop where
  member_iff : ∀ g n, s.isLive n → (n ∈ s.graphNodes g ↔ s.parentGraphOf n = some g)
  members_live : ∀ g n, n ∈ s.graphNodes g → s.isLive n
  atMostOne : ∀ g g' n, n ∈ s.graphNodes g → n ∈ s.graphNodes g' → g = g'
  nodeGetShared : ∀ g n, n ∈ s.graphNodes g → s.nodeGetShared g n = .obj n

theorem Placed.membershipAgrees (hp : s.Placed) : s.MembershipAgrees where
  member_iff g n hn := by
    rw [hp.member, inGraph_iff]
    exact and_iff_right hn
  members_live g n hn := ((hp.member g n).mp hn).isLive
  atMostOne g g' n hn hn' := ((hp.member g n).mp hn).unique ((hp.member g' n).mp hn')
  nodeGetShared _ _ hn := nodeGetShared_of_mem hn

theorem Sound.nodeAdd_moves (h : s.Sound) {g : GraphId} {n : NodeId} (hg : g ∈ s.graphs)
    (hn : s.isLive n) :
    ∃ t, s.nodeAdd g n = .ok t ∧
      ∀ g' m, m ∈ t.graphNodes g' ↔ if m = n then g' = g else m ∈ s.graphNodes g' := by
  obtain ⟨hp, M, hrep⟩ := h
  obtain ⟨t, ht, htp, -, hin⟩ := nodeAdd_spec hrep hp hg hn
  refine ⟨t, ht, ?_⟩
  intro g' m
  rw [htp.member, hin, hp.member]

theorem Placed.connectTo_no_fault (hp : s.Placed) {this : NodeId} {Destination : NodePtr}
    (hthis : s.isLive this) (hpass : s.canPass Destination) (Data : ε) (e : EdgeId) :
    ∃ r, s.connectTo this Destination Data e = .ok r := by
  rcases connectTo_cases hp hthis hpass Data e with ⟨heq, -⟩ | ⟨d, g, -, -, -, heq⟩
  · exact ⟨_, heq⟩
  · exact ⟨_, heq⟩

/-- After every run of the operations `Nodes` and `ParentGraph` agree; a further `NodeAdd`
moves exactly its node, and no `ConnectTo` fails an assertion. -/
theorem run_membershipAgrees (ops : List (Op ν ε)) :
    ∃ s, Runs.run step Heap.empty ops = .ok s ∧ s.MembershipAgrees ∧
      (∀ g n, g ∈ s.graphs → s.isLive n → ∃ t, s.nodeAdd g n = .ok t ∧
        ∀ g' m, m ∈ t.graphNodes g' ↔ if m = n then g' = g else m ∈ s.graphNodes g') ∧
      ∀ this Destination Data e, s.isLive this → s.canPass Destination →
        ∃ r, s.connectTo this Destination Data e = .ok r := by
  obtain ⟨s, hs, hsound⟩ := run_sound ops
  refine ⟨s, hs, hsound.1.membershipAgrees, fun g n hg hn => hsound.nodeAdd_moves hg hn, ?_⟩
  intro this Destination Data e hthis hpass
  exact hsound.1.connectTo_no_fault hthis hpass Data e

/-- Every run of the code is a sequence of atomic changes of the represented multigraph. -/
theorem run_refines (ops : List (Op ν ε)) :
    ∃ s M, Runs.run step Heap.empty ops = .ok s ∧
      Changes (Multigraph.empty NodeId EdgeId) M ∧ s.Represents M := by
  have hinit : Refines (Multigraph.empty NodeId EdgeId) (Heap.empty : Heap ν ε) :=
    empty_represents.refines empty_placed
  have hstep : ∀ (s : Heap ν ε) (op : Op ν ε), Refines (Multigraph.empty NodeId EdgeId) s →
      ∃ t, s.step op = .ok t ∧ Refines (Multigraph.empty NodeId EdgeId) t := by
    rintro s op ⟨hp, M, hM, hrep⟩
    obtain ⟨t, ht, htp, M', hM', hrep'⟩ := step_refines hrep hp op
    exact ⟨t, ht, htp, M', hM.trans hM', hrep'⟩
  obtain ⟨s, hs, -, M, hM, hrep⟩ := Runs.run_invariant step hstep hinit ops
  exact ⟨s, M, hs, hM, hrep⟩

end Unotu.Graph.Heap
