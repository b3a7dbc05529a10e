import Unotu.Graph.Adjacency
import Unotu.Graph.Destruction

/-!
# The views of a node

`ConnectedGet` goes by `OtherGet`, which takes any edge that does not start at the node for one
that ends there; the directional views test each end. On the edges that a living node really
has they agree.

`OtherGet` with a raw pointer compares it with a shared pointer, for which there is no operator,
so neither it nor `ConnectedGet` can be instantiated. As everywhere here a body that is not
accepted has no meaning (`none`): it is a function of what it looks up, and the lookup fails.
`sameAddress` is what the comparison is taken to be.
-/

set_option autoImplicit false

namespace Unotu.Graph.Heap

open Multigraph

variable {ν ε : Type} {s : Heap ν ε} {M : Multigraph NodeId EdgeId}

/-- `OtherGet( Node )` with a shared pointer, locked. -/
def otherGet (s : Heap ν ε) (e : EdgeId) (Node : NodePtr) : NodePtr :=
  if Node = s.sourceGet e then s.destinationGet e else s.sourceGet e

/-- The operator that compares a raw pointer with a shared pointer. -/
def rawEqual : Option (NodeId → NodePtr → Bool) := none

def sameAddress (Node : NodeId) (Source : NodePtr) : Bool := Source = .obj Node

/-- The body of `OtherGet( Node )` with a raw pointer. -/
def otherGetBy (equal : NodeId → NodePtr → Bool) (s : Heap ν ε) (e : EdgeId) (Node : NodeId) :
    NodePtr :=
  if equal Node (s.sourceGet e) then s.destinationGet e else s.sourceGet e

/-- The body of `ConnectedGet`. -/
def connectedGetBy (equal : NodeId → NodePtr → Bool) (s : Heap ν ε) (this : NodeId) :
    OrderedSet NodePtr :=
  OrderedSet.collect
    (fun Edge =>
      let OtherNode := s.otherGetBy equal Edge this
      if OtherNode ≠ .null then some OtherNode else none)
    (s.edgesOf this).elems

def connectedGet (s : Heap ν ε) (this : NodeId) : Option (OrderedSet NodePtr) :=
  rawEqual.map fun equal => s.connectedGetBy equal this

/-- `EdgesGet()`. -/
def edgesGetAll (s : Heap ν ε) (this : NodeId) : OrderedSet EdgeId := s.edgesOf this

def edgesOutgoingGet (s : Heap ν ε) (this : NodeId) : OrderedSet EdgeId :=
  OrderedSet.collect
    (fun Edge => if s.sourceGet Edge = .obj this then some Edge else none)
    (s.edgesOf this).elems

/-- An edge in the set of `n` that starts and ends there. -/
def SelfConnection (s : Heap ν ε) (n : NodeId) (e : EdgeId) : Prop :=
  s.Holds n e ∧ ∃ edge, s.edges e = some edge ∧ edge.source = n ∧ edge.destination = n

/-- The views agree, with addresses compared in `ConnectedGet`. -/
structure ViewsAgree (s : Heap ν ε) (n : NodeId) : Prop where
  connected : ∀ p, p ∈ s.connectedGetBy sameAddress n ↔
    p ∈ s.connectedIncomingGet n ∨ p ∈ s.connectedOutgoingGet n
  notNull : .null ∉ s.connectedGetBy sameAddress n
  self : .obj n ∈ s.connectedGetBy sameAddress n ↔ ∃ e, s.SelfConnection n e
  edges : ∀ e, e ∈ s.edgesGetAll n ↔ e ∈ s.edgesIncomingGet n ∨ e ∈ s.edgesOutgoingGet n
  both : ∀ e, e ∈ s.edgesIncomingGet n ∧ e ∈ s.edgesOutgoingGet n ↔ s.SelfConnection n e
  sources : ∀ p, p ∈ s.connectedIncomingGet n ↔ ∃ e ∈ s.edgesIncomingGet n, s.sourceGet e = p

namespace Represents

theorem mem_edgesIncomingGet (h : s.Represents M) {n : NodeId} (hn : s.isLive n) (e : EdgeId) :
    e ∈ s.edgesIncomingGet n ↔ e ∈ M.edges ∧ M.target e = n := by
  simp only [edgesIncomingGet, OrderedSet.mem_collect, OrderedSet.mem_elems,
    Option.ite_none_right_eq_some, Option.some.injEq]
  constructor
  · rintro ⟨f, hf, htarget, rfl⟩
    have he := ((h.mem_edgesOf hn).mp hf).1
    rw [h.destinationGet_eq he, NodePtr.obj.injEq] at htarget
    exact ⟨he, htarget⟩
  · rintro ⟨he, rfl⟩
    exact ⟨e, (h.mem_edgesOf hn).mpr (incident_target he), h.destinationGet_eq he, rfl⟩

theorem mem_edgesOutgoingGet (h : s.Represents M) {n : NodeId} (hn : s.isLive n) (e : EdgeId) :
    e ∈ s.edgesOutgoingGet n ↔ e ∈ M.edges ∧ M.source e = n := by
  simp only [edgesOutgoingGet, OrderedSet.mem_collect, OrderedSet.mem_elems,
    Option.ite_none_right_eq_some, Option.some.injEq]
  constructor
  · rintro ⟨f, hf, hsource, rfl⟩
    have he := ((h.mem_edgesOf hn).mp hf).1
    rw [h.sourceGet_eq he, NodePtr.obj.injEq] at hsource
    exact ⟨he, hsource⟩
  · rintro ⟨he, rfl⟩
    exact ⟨e, (h.mem_edgesOf hn).mpr (incident_source he), h.sourceGet_eq he, rfl⟩

theorem otherGetBy_eq (h : s.Represents M) {e : EdgeId} (he : e ∈ M.edges) (n : NodeId) :
    s.otherGetBy sameAddress e n = .obj (if M.source e = n then M.target e else M.source e) := by
  simp only [otherGetBy, sameAddress, decide_eq_true_eq, h.sourceGet_eq he, h.destinationGet_eq he,
    NodePtr.obj.injEq]
  split <;> rfl

/-- The other end of an edge that starts elsewhere is its source, so the edge comes in. -/
theorem mem_connectedGet (h : s.Represents M) {n : NodeId} (hn : s.isLive n) (p : NodePtr) :
    p ∈ s.connectedGetBy sameAddress n ↔ ∃ m, p = .obj m ∧ (M.Adj m n ∨ M.Adj n m) := by
  simp only [connectedGetBy, OrderedSet.mem_collect, OrderedSet.mem_elems, ne_eq,
    Option.ite_none_right_eq_some, Option.some.injEq]
  constructor
  · rintro ⟨e, he, -, rfl⟩
    obtain ⟨heM, hend⟩ := (h.mem_edgesOf hn).mp he
    rw [h.otherGetBy_eq heM]
    refine ⟨_, rfl, ?_⟩
    split
    · rename_i hs
      exact Or.inr ⟨e, heM, hs, rfl⟩
    · rename_i hs
      exact Or.inl ⟨e, heM, rfl, hend.resolve_left hs⟩
  · rintro ⟨m, rfl, hadj⟩
    have hedge : ∃ e, M.Incident e n ∧ (if M.source e = n then M.target e else M.source e) = m := by
      rcases hadj with ⟨e, he, hs, ht⟩ | ⟨e, he, hs, ht⟩
      · refine ⟨e, ⟨he, Or.inr ht⟩, ?_⟩
        split
        · rename_i hsn
          rw [ht, ← hsn, hs]
        · exact hs
      · exact ⟨e, ⟨he, Or.inl hs⟩, by rw [if_pos hs, ht]⟩
    obtain ⟨e, hinc, hm⟩ := hedge
    refine ⟨e, (h.mem_edgesOf hn).mpr hinc, ?_, ?_⟩
    · rw [h.otherGetBy_eq hinc.1]
      exact NodePtr.noConfusion
    · rw [h.otherGetBy_eq hinc.1, hm]

theorem selfConnection_iff (h : s.Represents M) {n : NodeId} {e : EdgeId} :
    s.SelfConnection n e ↔ e ∈ M.edges ∧ M.source e = n ∧ M.target e = n := by
  constructor
  · rintro ⟨hn, edge, hedge, hs, hd⟩
    have he := h.mem_edges hn
    obtain ⟨hes, hed⟩ := h.ends_of_edge he hedge
    exact ⟨he, hes ▸ hs, hed ▸ hd⟩
  · rintro ⟨he, hs, hd⟩
    obtain ⟨edge, hedge, hes, hed⟩ := h.ends e he
    exact ⟨(h.holds n e).mpr ⟨he, Or.inl hs⟩, edge, hedge, hes ▸ hs, hed ▸ hd⟩

theorem viewsAgree (h : s.Represents M) {n : NodeId} (hn : s.isLive n) : s.ViewsAgree n := by
  refine ⟨?_, ?_, ?_, ?_, ?_, ?_⟩
  · intro p
    rw [h.mem_connectedGet hn, h.mem_connectedIncomingGet hn, h.mem_connectedOutgoingGet hn,
      ← exists_or]
    simp only [and_or_left]
  · intro hnull
    obtain ⟨m, hm, -⟩ := (h.mem_connectedGet hn _).mp hnull
    cases hm
  · rw [h.mem_connectedGet hn]
    constructor
    · rintro ⟨m, hm, hadj⟩
      obtain rfl := NodePtr.obj.inj hm
      rcases hadj with ⟨e, he⟩ | ⟨e, he⟩
      · exact ⟨e, h.selfConnection_iff.mpr he⟩
      · exact ⟨e, h.selfConnection_iff.mpr he⟩
    · rintro ⟨e, hself⟩
      exact ⟨n, rfl, Or.inl ⟨e, h.selfConnection_iff.mp hself⟩⟩
  · intro e
    rw [edgesGetAll, h.mem_edgesOf hn, h.mem_edgesIncomingGet hn, h.mem_edgesOutgoingGet hn,
      ← and_or_left, or_comm]
    exact Iff.rfl
  · intro e
    rw [h.mem_edgesIncomingGet hn, h.mem_edgesOutgoingGet hn, h.selfConnection_iff]
    constructor
    · rintro ⟨⟨he, ht⟩, -, hs⟩
      exact ⟨he, hs, ht⟩
    · rintro ⟨he, hs, ht⟩
      exact ⟨⟨he, ht⟩, he, hs⟩
  · intro p
    rw [h.mem_connectedIncomingGet hn]
    constructor
    · rintro ⟨a, rfl, e, he, rfl, ht⟩
      exact ⟨e, (h.mem_edgesIncomingGet hn e).mpr ⟨he, ht⟩, h.sourceGet_eq he⟩
    · rintro ⟨e, hmem, rfl⟩
      obtain ⟨he, ht⟩ := (h.mem_edgesIncomingGet hn e).mp hmem
      exact ⟨M.source e, h.sourceGet_eq he, e, he, rfl, ht⟩

end Represents

/-- In every state of a run the views of every living node agree. -/
theorem run_viewsAgree (ops : List (LifetimeOp ν ε)) :
    Runs.Along stepLifetime (fun s => ∀ n, s.isLive n → s.ViewsAgree n) Heap.empty ops := by
  intro before s _ hrun n hn
  obtain ⟨M, h⟩ := run_represents hrun
  exact h.viewsAgree hn

end Unotu.Graph.Heap
