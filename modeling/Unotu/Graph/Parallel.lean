import Unotu.Graph.Connecting
import Unotu.Graph.Views

/-!
# Parallel edges

`ConnectTo` does not look for an edge that is already there. No other operation adds edges, so
the edges of a run stay single exactly as long as no two nodes are connected twice.
-/

set_option autoImplicit false

namespace Unotu.Graph.Heap

open Multigraph

variable {ν ε : Type} {s : Heap ν ε} {M : Multigraph NodeId EdgeId}

/-- No two edges into `n` come from the same node. -/
def SingleInputs (s : Heap ν ε) (n : NodeId) : Prop :=
  ∀ e ∈ s.edgesIncomingGet n, ∀ f ∈ s.edgesIncomingGet n, s.sourceGet e = s.sourceGet f → e = f

/-- A connection that `ConnectTo` accepts is not there yet. -/
def ConnectsOnce (s : Heap ν ε) : Op ν ε → Prop
  | .connectTo this Destination _ e => s.isLive this → s.canPass Destination → s.edges e = none →
      s.Connectable this Destination → Destination ∉ s.connectedOutgoingGet this
  | _ => True

theorem Represents.simple_iff (h : s.Represents M) :
    M.Simple ↔ ∀ n, s.isLive n → s.SingleInputs n := by
  constructor
  · intro hsimple n hn e he f hf hsource
    obtain ⟨he, het⟩ := (h.mem_edgesIncomingGet hn e).mp he
    obtain ⟨hf, hft⟩ := (h.mem_edgesIncomingGet hn f).mp hf
    rw [h.sourceGet_eq he, h.sourceGet_eq hf, NodePtr.obj.injEq] at hsource
    exact hsimple e he f hf hsource (het.trans hft.symm)
  · intro hsingle e he f hf hs ht
    have hn : s.isLive (M.target f) := (h.nodes _).mpr (M.target_mem hf)
    apply hsingle (M.target f) hn
    · exact (h.mem_edgesIncomingGet hn e).mpr ⟨he, ht⟩
    · exact (h.mem_edgesIncomingGet hn f).mpr ⟨hf, rfl⟩
    · rw [h.sourceGet_eq he, h.sourceGet_eq hf, hs]

theorem connectsOnce_of_not_connectTo (s : Heap ν ε) {op : Op ν ε}
    (hop : ∀ this Destination Data e, op ≠ .connectTo this Destination Data e) :
    s.ConnectsOnce op := by
  cases op with
  | connectTo this Destination Data e => exact absurd rfl (hop this Destination Data e)
  | _ => trivial

theorem connectTo_simple_iff (h : s.Represents M) (hp : s.Placed) (hsimple : M.Simple)
    (this : NodeId) (Destination : NodePtr) (Data : ε) (e : EdgeId) :
    ∃ t M', s.step (.connectTo this Destination Data e) = .ok t ∧ t.Represents M' ∧
      (M'.Simple ↔ s.ConnectsOnce (.connectTo this Destination Data e)) := by
  by_cases hc : s.isLive this ∧ s.canPass Destination ∧ s.edges e = none
  · have hstep : ∀ r, s.connectTo this Destination Data e = .ok r →
        s.step (.connectTo this Destination Data e) = .ok r.2 := by
      intro r hr
      simp only [step, if_pos hc, hr, Except.map]
    obtain ⟨hthis, hpass, hfresh⟩ := hc
    rcases connectTo_cases hp hthis hpass Data e with ⟨heq, hrefused⟩ | ⟨d, g, rfl, hin, hind, heq⟩
    · refine ⟨_, M, hstep _ heq, h, iff_of_true hsimple ?_⟩
      rintro - - - ⟨d, g, rfl, hg, hdg⟩
      have hd : s.isLive d := hpass
      exact absurd (inGraph_iff.mpr ⟨hd, hdg⟩) (hrefused d g rfl (inGraph_iff.mpr ⟨hthis, hg⟩))
    · have hthisM := (h.nodes this).mp hthis
      have hdM := (h.nodes d).mp hind.isLive
      obtain ⟨hnew, hrep⟩ := addEdge_represents h Data hthisM hdM hfresh
      have hadj : .obj d ∈ s.connectedOutgoingGet this ↔ M.Adj this d := by
        rw [h.mem_connectedOutgoingGet hthis]
        simp
      refine ⟨_, _, hstep _ heq, hrep, ?_⟩
      rw [simple_addEdge_iff hsimple hthisM hdM hnew, ← hadj]
      constructor
      · intro hnot _ _ _ _
        exact hnot
      · intro honce
        exact honce hthis hpass hfresh ⟨d, g, rfl, (inGraph_iff.mp hin).2, (inGraph_iff.mp hind).2⟩
  · refine ⟨s, M, if_neg hc, h, iff_of_true hsimple ?_⟩
    intro hthis hpass hfresh _
    exact absurd ⟨hthis, hpass, hfresh⟩ hc

/-- In every state of a run no node has two edges from one other exactly when every connection
is made once. -/
theorem run_singleInputs_iff (ops : List (Op ν ε)) :
    Runs.Along step (fun s => ∀ n, s.isLive n → s.SingleInputs n) Heap.empty ops ↔
      Runs.EveryStep step ConnectsOnce Heap.empty ops := by
  apply Runs.along_iff_everyStep step (I := Sound)
  · rintro s op ⟨hp, M, h⟩
    obtain ⟨t, ht, hsound⟩ := step_sound ⟨hp, M, h⟩ op
    refine ⟨t, ht, hsound, ?_⟩
    intro hsingle
    have hsimple : M.Simple := h.simple_iff.mpr hsingle
    by_cases hop : ∃ this Destination Data e, op = .connectTo this Destination Data e
    · obtain ⟨this, Destination, Data, e, rfl⟩ := hop
      obtain ⟨t', M', ht', h', hiff⟩ := connectTo_simple_iff h hp hsimple this Destination Data e
      obtain rfl := Except.ok.inj (ht.symm.trans ht')
      rw [← h'.simple_iff, hiff]
    · have hop' : ∀ this Destination Data e, op ≠ .connectTo this Destination Data e :=
        fun this Destination Data e heq => hop ⟨this, Destination, Data, e, heq⟩
      obtain ⟨M', h', hfrom⟩ := step_edgesFrom h ht hop'
      refine iff_of_true ?_ (connectsOnce_of_not_connectTo s hop')
      exact h'.simple_iff.mp (hsimple.of_edgesFrom hfrom)
  · exact sound_empty
  · intro n hn
    simp [isLive_iff, Heap.empty] at hn

end Unotu.Graph.Heap
