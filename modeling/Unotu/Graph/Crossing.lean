import Unotu.Graph.Adjacency
import Unotu.Graph.Release

/-!
# Edges that cross graphs

`ConnectTo` only connects nodes of one graph. Taking a node out of its graph leaves its
edges in place when the node survives, so the law holds along a run exactly as long as
no surviving node is taken away from an edge.
-/

set_option autoImplicit false

namespace Unotu.Graph.Heap

open Multigraph

variable {ν ε : Type} {s t : Heap ν ε} {M : Multigraph NodeId EdgeId}

/-- Both ends of every edge that a living node holds have the same parent graph, and the
neighbours of a member of a graph are members. -/
structure EdgesInside (s : Heap ν ε) : Prop where
  ends : ∀ n e, s.Holds n e → ∃ edge g, s.edges e = some edge ∧
    s.parentGraphOf edge.source = some g ∧ s.parentGraphOf edge.destination = some g
  neighbours : ∀ g n p, n ∈ s.nodeGetAll g →
    (p ∈ s.connectedOutgoingGet n ∨ p ∈ s.connectedIncomingGet n) →
    ∃ m, p = .obj m ∧ m ∈ s.nodeGetAll g

def Inside (s : Heap ν ε) (M : Multigraph NodeId EdgeId) : Prop :=
  ∀ e ∈ M.edges, ∃ g, s.InGraph (M.source e) g ∧ s.InGraph (M.target e) g

/-- What a step must respect: a node that survives its removal has no edges, a node that
moves to another graph has none but self-connections, and no edge joins two survivors of
`NodeRemoveAll`. -/
def KeepsInside (s : Heap ν ε) : Op ν ε → Prop
  | .nodeAdd g n => g ∈ s.graphs → s.isLive n → s.parentGraphOf n ≠ some g →
      ∀ e edge, s.Holds n e → s.edges e = some edge →
        edge.source = n ∧ edge.destination = n
  | .nodeRemove g n => n ∈ s.graphNodes g → s.held n → ∀ e, ¬ s.Holds n e
  | .nodeRemoveAll g => ∀ e edge, s.edges e = some edge →
      edge.source ∈ s.graphNodes g → edge.destination ∈ s.graphNodes g →
      s.held edge.source → s.held edge.destination → ¬ s.Holds edge.source e
  | _ => True

theorem Represents.inGraph_iff_of_edge (h : s.Represents M) {e : EdgeId} (he : e ∈ M.edges)
    (g : GraphId) :
    (s.InGraph (M.source e) g ↔ s.parentGraphOf (M.source e) = some g) ∧
      (s.InGraph (M.target e) g ↔ s.parentGraphOf (M.target e) = some g) := by
  constructor
  · rw [inGraph_iff]
    exact and_iff_right ((h.nodes _).mpr (M.source_mem he))
  · rw [inGraph_iff]
    exact and_iff_right ((h.nodes _).mpr (M.target_mem he))

theorem edgesInside_iff (h : s.Represents M) (hp : s.Placed) : s.EdgesInside ↔ s.Inside M := by
  constructor
  · intro hin e he
    obtain ⟨edge, g, hedge, hs, hd⟩ :=
      hin.ends (M.source e) e ((h.holds _ e).mpr (incident_source he))
    obtain ⟨hes, hed⟩ := h.ends_of_edge he hedge
    rw [hes] at hs
    rw [hed] at hd
    have hiff := h.inGraph_iff_of_edge he g
    exact ⟨g, hiff.1.mpr hs, hiff.2.mpr hd⟩
  · intro hin
    refine ⟨?_, ?_⟩
    · intro n e hn
      have he := h.mem_edges hn
      obtain ⟨edge, hedge, hes, hed⟩ := h.ends e he
      obtain ⟨g, hs, hd⟩ := hin e he
      have hiff := h.inGraph_iff_of_edge he g
      refine ⟨edge, g, hedge, ?_, ?_⟩
      · rw [hes]
        exact hiff.1.mp hs
      · rw [hed]
        exact hiff.2.mp hd
    · intro g n p hn hp'
      have hng : s.InGraph n g := (hp.member g n).mp hn
      rcases hp' with hout | hinc
      · obtain ⟨m, rfl, e, he, rfl, rfl⟩ := (h.mem_connectedOutgoingGet hng.isLive p).mp hout
        obtain ⟨g', hs, hd⟩ := hin e he
        obtain rfl := hng.unique hs
        exact ⟨_, rfl, (hp.member _ _).mpr hd⟩
      · obtain ⟨m, rfl, e, he, rfl, rfl⟩ := (h.mem_connectedIncomingGet hng.isLive p).mp hinc
        obtain ⟨g', hs, hd⟩ := hin e he
        obtain rfl := hng.unique hd
        exact ⟨_, rfl, (hp.member _ _).mpr hs⟩

/-! ## One step keeps the law exactly under its condition -/

theorem Inside.mono {M' : Multigraph NodeId EdgeId} (h : s.Inside M)
    (hedges : M'.EdgesFrom M)
    (hin : ∀ e ∈ M'.edges, ∀ g n, n = M'.source e ∨ n = M'.target e →
      s.InGraph n g → t.InGraph n g) : t.Inside M' := by
  intro e he
  obtain ⟨heM, hs, hd⟩ := hedges e he
  obtain ⟨g, hsg, hdg⟩ := h e heM
  refine ⟨g, hin e he g _ (Or.inl rfl) ?_, hin e he g _ (Or.inr rfl) ?_⟩
  · rwa [hs]
  · rwa [hd]

/-- The members of `M'` are as before the step, and no edge was added. -/
theorem Inside.of_subgraph {S : Set NodeId} (h : s.Inside M)
    (hin : ∀ n g, n ∉ S → (t.InGraph n g ↔ s.InGraph n g)) : t.Inside (M.removeNodes S) := by
  refine h.mono (edgesFrom_removeNodes M S) ?_
  intro e he g n hend hn
  rcases hend with rfl | rfl
  · exact (hin _ g he.2.1).mpr hn
  · exact (hin _ g he.2.2).mpr hn

theorem nodeAdd_inside_iff (h : s.Represents M) (hi : s.Inside M) {g : GraphId} {n : NodeId}
    (hmove : ¬ s.InGraph n g)
    (hin : ∀ m g', t.InGraph m g' ↔ if m = n then g' = g else s.InGraph m g') :
    t.Inside M ↔ ∀ e edge, s.Holds n e → s.edges e = some edge →
      edge.source = n ∧ edge.destination = n := by
  constructor
  · intro ht e edge hn hedge
    obtain ⟨he, hend⟩ := (h.holds n e).mp hn
    obtain ⟨hes, hed⟩ := h.ends_of_edge he hedge
    obtain ⟨g₁, hs₁, hd₁⟩ := hi e he
    obtain ⟨g₂, hs₂, hd₂⟩ := ht e he
    rw [hin] at hs₂ hd₂
    rw [hes, hed]
    -- The end that is not `n` is still in the old graph, while `n` is in the new one.
    rcases hend with hend | hend
    · refine ⟨hend, ?_⟩
      by_contra hne
      rw [if_pos hend] at hs₂
      rw [if_neg hne] at hd₂
      subst g₂
      obtain rfl := hd₁.unique hd₂
      exact hmove (hend ▸ hs₁)
    · refine ⟨?_, hend⟩
      by_contra hne
      rw [if_pos hend] at hd₂
      rw [if_neg hne] at hs₂
      subst g₂
      obtain rfl := hs₁.unique hs₂
      exact hmove (hend ▸ hd₁)
  · intro hloops e he
    by_cases hinc : M.Incident e n
    · obtain ⟨edge, hedge, hes, hed⟩ := h.ends e he
      obtain ⟨hs, hd⟩ := hloops e edge ((h.holds n e).mpr hinc) hedge
      refine ⟨g, ?_, ?_⟩
      · rw [hin, ← hes, if_pos hs]
      · rw [hin, ← hed, if_pos hd]
    · have hs : M.source e ≠ n := fun heq => hinc ⟨he, Or.inl heq⟩
      have hd : M.target e ≠ n := fun heq => hinc ⟨he, Or.inr heq⟩
      obtain ⟨g', hsg, hdg⟩ := hi e he
      refine ⟨g', ?_, ?_⟩
      · rwa [hin, if_neg hs]
      · rwa [hin, if_neg hd]

theorem inGraph_nodeRemove {g g' : GraphId} {n m : NodeId} (hn : n ∈ s.graphNodes g) :
    (s.nodeRemove g (.obj n)).InGraph m g' ↔ m ≠ n ∧ s.InGraph m g' := by
  simp only [nodeRemove, hn, if_true, inGraph_clearParent]
  exact Iff.rfl

theorem nodeRemove_held (g : GraphId) (p : NodePtr) : (s.nodeRemove g p).held = s.held := by
  unfold nodeRemove
  split
  · split <;> rfl
  · rfl

theorem nodeRemove_inside_iff (h : s.Represents M) (hp : s.Placed) (hi : s.Inside M)
    {g : GraphId} {n : NodeId} (hn : n ∈ s.graphNodes g) :
    ∃ M', ((s.nodeRemove g (.obj n)).release n).Placed ∧
      ((s.nodeRemove g (.obj n)).release n).Represents M' ∧
      (((s.nodeRemove g (.obj n)).release n).Inside M' ↔
        (s.held n → ∀ e, ¬ s.Holds n e)) := by
  have hin : ∀ m g', (s.nodeRemove g (.obj n)).InGraph m g' ↔ m ≠ n ∧ s.InGraph m g' :=
    fun m g' => inGraph_nodeRemove hn
  have hout : ∀ g', ¬ (s.nodeRemove g (.obj n)).InGraph n g' :=
    fun g' hng => ((hin n g').mp hng).1 rfl
  obtain ⟨hp', h', hin'⟩ := release_spec (h.nodeRemove g (.obj n)) (hp.nodeRemove g _) hout
  refine ⟨_, hp', h', ?_⟩
  rw [nodeRemove_held]
  constructor
  · intro ht hheld e he
    have heM := (h.holds n e).mp he
    have hkeep : e ∈ (M.removeNodes {m | m = n ∧ s.held m = false}).edges := by
      refine ⟨heM.1, ?_, ?_⟩
      · rintro ⟨heq, hm⟩
        rw [heq, hheld] at hm
        cases hm
      · rintro ⟨heq, hm⟩
        rw [heq, hheld] at hm
        cases hm
    obtain ⟨g', hs, hd⟩ := ht e hkeep
    rw [hin', hin] at hs hd
    rcases heM.2 with heq | heq
    · exact hs.1 heq
    · exact hd.1 heq
  · intro hc
    have hgone : ∀ e ∈ (M.removeNodes {m | m = n ∧ s.held m = false}).edges,
        M.source e ≠ n ∧ M.target e ≠ n := by
      rintro e ⟨he, hs, hd⟩
      cases hheld : s.held n with
      | true =>
        have hnone := fun f hf => hc hheld f ((h.holds n f).mpr hf)
        exact ⟨fun heq => hnone e ⟨he, Or.inl heq⟩, fun heq => hnone e ⟨he, Or.inr heq⟩⟩
      | false => exact ⟨fun heq => hs ⟨heq, heq ▸ hheld⟩, fun heq => hd ⟨heq, heq ▸ hheld⟩⟩
    refine hi.mono (edgesFrom_removeNodes M _) ?_
    intro e he g' m hm hmg
    rw [hin', hin]
    rcases hm with rfl | rfl
    · exact ⟨(hgone e he).1, hmg⟩
    · exact ⟨(hgone e he).2, hmg⟩

theorem nodeRemoveAll_inside_iff (h : s.Represents M) (hp : s.Placed) (hi : s.Inside M)
    (g : GraphId) :
    ∃ M', (s.nodeRemoveAll g).Placed ∧ (s.nodeRemoveAll g).Represents M' ∧
      ((s.nodeRemoveAll g).Inside M' ↔ s.KeepsInside (.nodeRemoveAll g)) := by
  have hheld : (s.detachAll g).held = s.held := foldl_clearParent_held _
  have hout : ∀ n ∈ (s.graphNodes g).elems, ∀ g', ¬ (s.detachAll g).InGraph n g' :=
    fun n hn g' hng => (inGraph_detachAll.mp hng).1 hn
  obtain ⟨hp', h', hin'⟩ :=
    foldl_release_spec (detachAll_represents h g) (detachAll_placed hp g) hout
  rw [hheld] at h'
  refine ⟨_, hp', h', ?_⟩
  have hin : ∀ m g', (s.nodeRemoveAll g).InGraph m g' ↔ m ∉ s.graphNodes g ∧ s.InGraph m g' :=
    fun m g' => (hin' m g').trans inGraph_detachAll
  constructor
  · intro ht e edge hedge hs hd hsh hdh hhold
    have heM := h.mem_edges hhold
    obtain ⟨hes, hed⟩ := h.ends_of_edge heM hedge
    rw [hes] at hs hsh
    rw [hed] at hdh
    have hkeep : e ∈ (M.removeNodes {n | n ∈ (s.graphNodes g).elems ∧ s.held n = false}).edges := by
      refine ⟨heM, ?_, ?_⟩
      · rintro ⟨-, hm⟩
        rw [hsh] at hm
        cases hm
      · rintro ⟨-, hm⟩
        rw [hdh] at hm
        cases hm
    obtain ⟨g', hsg, -⟩ := ht e hkeep
    exact ((hin _ _).mp hsg).1 hs
  · intro hc e he
    obtain ⟨heM, hs, hd⟩ := he
    obtain ⟨g', hsg, hdg⟩ := hi e heM
    by_cases hgg : g' = g
    · -- Both ends were members, and a member that stays is held by a caller.
      subst g'
      have hsm := (hp.member g _).mpr hsg
      have hdm := (hp.member g _).mpr hdg
      obtain ⟨edge, hedge, hes, hed⟩ := h.ends e heM
      have hsh : s.held (M.source e) = true := by
        by_contra hne
        exact hs ⟨hsm, by simpa using hne⟩
      have hdh : s.held (M.target e) = true := by
        by_contra hne
        exact hd ⟨hdm, by simpa using hne⟩
      refine absurd ((h.holds _ e).mpr (incident_source heM)) ?_
      rw [← hes]
      exact hc e edge hedge (hes ▸ hsm) (hed ▸ hdm) (hes ▸ hsh) (hed ▸ hdh)
    · refine ⟨g', (hin _ _).mpr ⟨?_, hsg⟩, (hin _ _).mpr ⟨?_, hdg⟩⟩
      · exact fun hm => hgg (hsg.unique ((hp.member g _).mp hm))
      · exact fun hm => hgg (hdg.unique ((hp.member g _).mp hm))

theorem release_inside (h : s.Represents M) (hp : s.Placed) (hi : s.Inside M) (n : NodeId) :
    ∃ M', (s.release n).Placed ∧ (s.release n).Represents M' ∧ (s.release n).Inside M' := by
  by_cases hfree : ∀ g, ¬ s.InGraph n g
  · obtain ⟨hp', h', hin⟩ := release_spec h hp hfree
    exact ⟨_, hp', h', hi.of_subgraph fun m g _ => hin m g⟩
  · have hown : s.owned n = true := by
      by_contra hne
      exact hfree fun g hg => hp.notMem_of_not_owned (by simpa using hne) g ((hp.member g n).mpr hg)
    have hsame : s.release n = s := by simp [release, hown]
    rw [hsame]
    exact ⟨M, hp, h, hi⟩

theorem connectTo_inside (h : s.Represents M) (hp : s.Placed) (hi : s.Inside M)
    {this : NodeId} {Destination : NodePtr} (hthis : s.isLive this)
    (hpass : s.canPass Destination) (Data : ε) {e : EdgeId} (hfresh : s.edges e = none) :
    ∃ r M', s.connectTo this Destination Data e = .ok r ∧ r.2.Placed ∧ r.2.Represents M' ∧
      r.2.Inside M' := by
  rcases connectTo_cases hp hthis hpass Data e with ⟨heq, -⟩ | ⟨d, g, -, hin, hind, heq⟩
  · exact ⟨_, M, heq, hp, h, hi⟩
  · have hthisM := (h.nodes this).mp hthis
    have hdM := (h.nodes d).mp hind.isLive
    obtain ⟨hnew, hrep⟩ := addEdge_represents h Data hthisM hdM hfresh
    refine ⟨_, _, heq, addEdge_placed hp _ _ _ _, hrep, ?_⟩
    intro f hf
    by_cases hfe : f = e
    · subst f
      refine ⟨g, ?_, ?_⟩ <;> simpa [inGraph_addEdge, Multigraph.addEdge]
    · obtain ⟨g', hs, hd⟩ := hi f (hf.resolve_left hfe)
      refine ⟨g', ?_, ?_⟩ <;> simpa [inGraph_addEdge, Multigraph.addEdge, hfe]

theorem step_inside_iff (h : s.Represents M) (hp : s.Placed) (hi : s.Inside M) (op : Op ν ε) :
    ∃ t M', s.step op = .ok t ∧ t.Placed ∧ t.Represents M' ∧
      (t.Inside M' ↔ s.KeepsInside op) := by
  cases op with
  | makeGraph g =>
    refine ⟨_, M, rfl, makeGraph_placed hp g, makeGraph_represents h g, iff_of_true ?_ trivial⟩
    exact hi.mono (.refl M) fun _ _ g' n _ hn => (inGraph_makeGraph g n g').mpr hn
  | makeNode n Data =>
    by_cases hunused : s.nodes n = .unused
    · refine ⟨_, _, rfl, makeNode_placed hp hunused Data, makeNode_represents h hunused Data,
        iff_of_true ?_ trivial⟩
      exact hi.mono (.refl M) fun _ _ g' m _ hm => (inGraph_makeNode hunused Data m g').mpr hm
    · refine ⟨s, M, ?_, hp, h, iff_of_true hi trivial⟩
      simp [step, makeNode_of_used hunused]
  | holdNode n =>
    by_cases hn : s.isLive n
    · exact ⟨s.setHeld n true, M, by simp [step, holdNode, hn], hp.setHeld n true,
        h.setHeld n true, iff_of_true hi trivial⟩
    · exact ⟨s, M, by simp [step, holdNode, hn], hp, h, iff_of_true hi trivial⟩
  | dropNode n =>
    by_cases hn : s.isLive n
    · obtain ⟨M', hp', h', hi'⟩ :=
        release_inside (h.setHeld n false) (hp.setHeld n false) hi n
      exact ⟨_, M', by simp [step, dropNode, hn], hp', h', iff_of_true hi' trivial⟩
    · exact ⟨s, M, by simp [step, dropNode, hn], hp, h, iff_of_true hi trivial⟩
  | nodeAdd g n =>
    by_cases hc : g ∈ s.graphs ∧ s.isLive n
    · obtain ⟨t, ht, htp, hrep, hin⟩ := nodeAdd_spec h hp hc.1 hc.2
      refine ⟨t, M, by simp [step, hc, ht], htp, hrep, ?_⟩
      by_cases hsame : s.InGraph n g
      · -- The node is in this graph already: nothing moves and nothing is asked.
        have hpar := (inGraph_iff.mp hsame).2
        refine iff_of_true ?_ fun _ _ hne => absurd hpar hne
        refine hi.mono (.refl M) ?_
        intro _ _ g' m _ hm
        rw [hin]
        split
        · subst m
          exact hm.unique hsame
        · exact hm
      · have hne : s.parentGraphOf n ≠ some g := fun hg => hsame (inGraph_iff.mpr ⟨hc.2, hg⟩)
        rw [nodeAdd_inside_iff h hi hsame hin]
        exact ⟨fun hloops _ _ _ => hloops, fun hk => hk hc.1 hc.2 hne⟩
    · refine ⟨s, M, if_neg hc, hp, h, iff_of_true hi ?_⟩
      exact fun hg hn => absurd ⟨hg, hn⟩ hc
  | nodeRemove g n =>
    by_cases hn : n ∈ s.graphNodes g
    · have hc : g ∈ s.graphs ∧ s.isLive n := ⟨hp.alive g n hn, ((hp.member g n).mp hn).isLive⟩
      obtain ⟨M', hp', h', hiff⟩ := nodeRemove_inside_iff h hp hi hn
      refine ⟨_, M', by simp [step, hc], hp', h', hiff.trans ?_⟩
      exact ⟨fun hk _ => hk, fun hk => hk hn⟩
    · have hsame : s.nodeRemove g (.obj n) = s := by simp [nodeRemove, hn]
      by_cases hc : g ∈ s.graphs ∧ s.isLive n
      · obtain ⟨M', hp', h', hi'⟩ := release_inside h hp hi n
        refine ⟨s.release n, M', by simp [step, hc, hsame], hp', h', ?_⟩
        exact iff_of_true hi' fun hmem => absurd hmem hn
      · exact ⟨s, M, by simp [step, hc], hp, h, iff_of_true hi fun hmem => absurd hmem hn⟩
  | nodeRemoveAll g =>
    by_cases hg : g ∈ s.graphs
    · obtain ⟨M', hp', h', hiff⟩ := nodeRemoveAll_inside_iff h hp hi g
      exact ⟨_, M', by simp [step, hg], hp', h', hiff⟩
    · refine ⟨s, M, by simp [step, hg], hp, h, iff_of_true hi ?_⟩
      exact fun e edge _ hs => absurd (hp.alive g _ hs) hg
  | connectTo this Destination Data e =>
    by_cases hc : s.isLive this ∧ s.canPass Destination ∧ s.edges e = none
    · obtain ⟨r, M', hr, hp', h', hi'⟩ := connectTo_inside h hp hi hc.1 hc.2.1 Data hc.2.2
      exact ⟨r.2, M', by simp [step, hc, hr, Except.map], hp', h', iff_of_true hi' trivial⟩
    · exact ⟨s, M, if_neg hc, hp, h, iff_of_true hi trivial⟩
  | cut e =>
    refine ⟨_, _, rfl, ?_, h.cut e, iff_of_true ?_ trivial⟩
    · rw [h.mirrored.cut_eq]
      exact hp.congr (fun _ _ => inGraph_eraseEdges) rfl rfl
    · refine hi.mono (edgesFrom_removeEdges M _) ?_
      intro _ _ g n _ hn
      rw [h.mirrored.cut_eq]
      exact inGraph_eraseEdges.mpr hn

/-- Along a run every state keeps its edges inside its graphs exactly when every step
respects its condition in the state before it. -/
theorem run_edgesInside_iff (ops : List (Op ν ε)) :
    Runs.Along step EdgesInside Heap.empty ops ↔
      Runs.EveryStep step KeepsInside Heap.empty ops := by
  apply Runs.along_iff_everyStep step (I := Sound)
  · rintro s op ⟨hp, M, h⟩
    by_cases hi : s.Inside M
    · obtain ⟨t, M', ht, hp', h', hiff⟩ := step_inside_iff h hp hi op
      refine ⟨t, ht, ⟨hp', M', h'⟩, fun _ => ?_⟩
      rw [edgesInside_iff h' hp', hiff]
    · obtain ⟨t, ht, hsound⟩ := step_sound ⟨hp, M, h⟩ op
      exact ⟨t, ht, hsound, fun hin => absurd ((edgesInside_iff h hp).mp hin) hi⟩
  · exact sound_empty
  · rw [edgesInside_iff empty_represents empty_placed]
    intro e he
    simp [Multigraph.empty] at he

/-- A caller keeps node 1, connects node 0 to it and removes it from their graph: node 0
still has the edge, and `ConnectedOutgoingGet` leads out of the graph. -/
theorem removed_node_keeps_edge :
    ∃ s : Heap Unit Unit, Runs.run step Heap.empty
        [.makeGraph 0, .makeNode 0 (), .makeNode 1 (), .nodeAdd 0 0, .nodeAdd 0 1,
          .connectTo 0 (.obj 1) () 0, .nodeRemove 0 1] = .ok s ∧
      s.Holds 0 0 ∧ s.parentGraphOf 1 = none ∧
      .obj 1 ∈ s.connectedOutgoingGet 0 ∧ 1 ∉ s.nodeGetAll 0 ∧ ¬ s.EdgesInside := by
  refine ⟨_, rfl, ⟨_, rfl, by decide⟩, rfl, by decide, by decide, ?_⟩
  intro hin
  obtain ⟨m, hm, hmem⟩ := hin.neighbours 0 0 (.obj 1) (by decide) (Or.inl (by decide))
  cases hm
  exact absurd hmem (by decide)

end Unotu.Graph.Heap
