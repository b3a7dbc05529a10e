import Unotu.Graph.Release

/-!
# What a step has done

A step first checks what the caller passes, and most operations return in several ways.
`Effect` says once what a step that does not fault has done, with what it has checked, so that
what steps keep is shown by one case for each change.
-/

set_option autoImplicit false

namespace Unotu.Graph.Heap

variable {ν ε : Type} {s t : Heap ν ε}

/-- The operation was refused, or it led to the second heap by its change. -/
inductive Effect (s : Heap ν ε) : Op ν ε → Heap ν ε → Prop where
  | nothing {op : Op ν ε} : Effect s op s
  | makeGraph {g : GraphId} : Effect s (.makeGraph g) (s.makeGraph g)
  | makeNode {n : NodeId} {Data : ν} : s.nodes n = .unused →
      Effect s (.makeNode n Data) (s.makeNode n Data)
  | hold {n : NodeId} : s.isLive n → Effect s (.holdNode n) (s.setHeld n true)
  | drop {n : NodeId} : s.isLive n → Effect s (.dropNode n) ((s.setHeld n false).release n)
  | enter {g : GraphId} {n : NodeId} : g ∈ s.graphs → s.isLive n → s.parentGraphOf n = none →
      Effect s (.nodeAdd g n) (s.enterGraph g n)
  | move {g g₀ : GraphId} {n : NodeId} : g ∈ s.graphs → s.isLive n →
      s.parentGraphOf n = some g₀ → g₀ ∈ s.graphs →
      Effect s (.nodeAdd g n) ((s.nodeRemove g₀ (.obj n)).enterGraph g n)
  | remove {g : GraphId} {n : NodeId} : g ∈ s.graphs → s.isLive n →
      Effect s (.nodeRemove g n) ((s.nodeRemove g (.obj n)).release n)
  | removeAll {g : GraphId} : g ∈ s.graphs → Effect s (.nodeRemoveAll g) (s.nodeRemoveAll g)
  | connect {this d : NodeId} {Data : ε} {e : EdgeId} : s.isLive this → s.isLive d →
      s.edges e = none →
      Effect s (.connectTo this (.obj d) Data e) (s.addEdge this d e ⟨this, d, Data⟩)
  | cut {e : EdgeId} : Effect s (.cut e) (s.cut e)

theorem nodeAdd_effect {g : GraphId} {n : NodeId} (hg : g ∈ s.graphs) (hn : s.isLive n)
    (ht : s.nodeAdd g n = .ok t) : s.Effect (.nodeAdd g n) t := by
  unfold nodeAdd at ht
  split at ht
  · cases ht
    exact .nothing
  · split at ht
    · rename_i hnone
      cases ht
      exact .enter hg hn hnone
    · rename_i g₀ hg₀
      split at ht
      · rename_i halive
        cases ht
        exact .move hg hn hg₀ halive
      · cases ht

/-- The two ways in which `ConnectTo` can return. -/
theorem connectTo_of_ok {this : NodeId} {Destination : NodePtr} {Data : ε} {e : EdgeId}
    {r : Bool × Heap ν ε} (hr : s.connectTo this Destination Data e = .ok r) :
    r = (false, s) ∨ ∃ d, Destination = .obj d ∧ r = (true, s.addEdge this d e ⟨this, d, Data⟩) := by
  cases Destination with
  | null =>
    cases hr
    exact Or.inl rfl
  | obj d =>
    simp only [connectTo, nodeGetShared_eq] at hr
    split at hr
    · cases hr
      exact Or.inl rfl
    · split at hr
      · cases hr
        exact Or.inl rfl
      · split at hr
        · cases hr
        · rename_i g _ _ _
          by_cases hmem : this ∈ s.graphNodes g
          · simp only [if_pos hmem, reduceCtorEq, if_false, GraphEdge.make, Except.map,
              Except.ok.injEq] at hr
            exact Or.inr ⟨d, rfl, hr.symm⟩
          · simp [hmem] at hr

theorem connectTo_effect {this : NodeId} {Destination : NodePtr} {Data : ε} {e : EdgeId}
    (hthis : s.isLive this) (hpass : s.canPass Destination) (hfresh : s.edges e = none)
    (ht : (s.connectTo this Destination Data e).map Prod.snd = .ok t) :
    s.Effect (.connectTo this Destination Data e) t := by
  cases hr : s.connectTo this Destination Data e with
  | error f => simp [hr, Except.map] at ht
  | ok r =>
    simp only [hr, Except.map, Except.ok.injEq] at ht
    subst t
    rcases connectTo_of_ok hr with rfl | ⟨d, rfl, rfl⟩
    · exact .nothing
    · exact .connect hthis hpass hfresh

theorem step_effect {op : Op ν ε} (ht : s.step op = .ok t) : s.Effect op t := by
  cases op with
  | makeGraph g =>
    cases ht
    exact .makeGraph
  | makeNode n Data =>
    cases ht
    by_cases hunused : s.nodes n = .unused
    · exact .makeNode hunused
    · rw [makeNode_of_used hunused]
      exact .nothing
  | holdNode n =>
    cases ht
    unfold holdNode
    split
    · exact .hold ‹_›
    · exact .nothing
  | dropNode n =>
    cases ht
    unfold dropNode
    split
    · exact .drop ‹_›
    · exact .nothing
  | nodeAdd g n =>
    simp only [step] at ht
    split at ht
    · rename_i hc
      exact nodeAdd_effect hc.1 hc.2 ht
    · cases ht
      exact .nothing
  | nodeRemove g n =>
    cases ht
    split
    · rename_i hc
      exact .remove hc.1 hc.2
    · exact .nothing
  | nodeRemoveAll g =>
    cases ht
    split
    · exact .removeAll ‹_›
    · exact .nothing
  | connectTo this Destination Data e =>
    simp only [step] at ht
    split at ht
    · rename_i hc
      exact connectTo_effect hc.1 hc.2.1 hc.2.2 ht
    · cases ht
      exact .nothing
  | cut e =>
    cases ht
    exact .cut

end Unotu.Graph.Heap
