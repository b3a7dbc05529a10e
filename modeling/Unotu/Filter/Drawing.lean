import Unotu.Filter.Building
import Unotu.Library.Runs
import Mathlib.Data.Set.List

/-!
# Drawing a filter graph

`OnRefresh` copies the filter node of every graph node and of everything connected to it, and
each copy is destroyed at the end of its scope. Drawing is harmless exactly when no
copied node has a cached output.
-/

set_option autoImplicit false

namespace Unotu.Filter

open Unotu.Graph

/-- What drawing does to filter nodes, in local variable `k`. -/
inductive DrawOp where
  | copy (k : Nat) (Node : NodePtr)
  | endOfScope (k : Nat)

namespace World

/-- `const filter_node Data = *Node->DataGet()` keeps every member and forgets the class. -/
def draw (w : World) : DrawOp → Except Stopped World
  | .copy _ .null => .error (w, .fault .nullDereference)
  | .copy k (.obj n) =>
    match w.filters (.data n) with
    | none => .error (w, .fault .destroyedObject)
    | some Data => .ok (w.setFilter (.copy k) (some Data.slice))
  | .endOfScope k => w.destroyFilter (.copy k)

/-- The inner loop of `OnRefresh`, over the nodes an arrow is drawn to. -/
def drawConnected : List NodePtr → List DrawOp
  | [] => []
  | ConnectedNode :: ConnectedNodes =>
    .copy 1 ConnectedNode :: .endOfScope 1 :: drawConnected ConnectedNodes

/-- The outer loop; the heap, which drawing never changes, gives the connected nodes. -/
def drawNodes (w : World) : List NodeId → List DrawOp
  | [] => []
  | n :: Nodes =>
    .copy 0 (.obj n) :: (drawConnected (w.heap.connectedOutgoingGet n).elems ++
      .endOfScope 0 :: w.drawNodes Nodes)

def refresh (w : World) (g : GraphId) : List DrawOp := w.drawNodes (w.heap.nodeGetAll g).elems

def onRefresh (w : World) (g : GraphId) : Except Stopped World := Runs.run draw w (w.refresh g)

/-! ## Safe drawing -/

def Stored (w : World) : Prop :=
  ∀ f node p, w.filters f = some node → node.cachedOutput = some p → ∃ P, w.store p = some P

/-- No other object has the cached output of `f`. -/
def Sole (w : World) (f : FilterId) : Prop :=
  ∀ g node node' p, w.filters f = some node → w.filters g = some node' →
    node.cachedOutput = some p → node'.cachedOutput = some p → g = f

/-- Before each step of drawing the cached outputs are stored, and a copy that is destroyed
shares its cached output with nobody. -/
def DrawSafe (w : World) (op : DrawOp) : Prop :=
  w.Stored ∧ ∀ k, op = .endOfScope k → w.Sole (.copy k)

def Uncached (w : World) (n : NodeId) : Prop :=
  ∀ node, w.filters (.data n) = some node → node.cachedOutput = none

variable {w : World}

def withCopy (w : World) (k : Nat) (Data : FilterNode) : World :=
  w.setFilter (.copy k) (some Data.slice)

theorem withCopy_filters (k : Nat) (Data : FilterNode) (f : FilterId) :
    (w.withCopy k Data).filters f =
      if f = .copy k then some Data.slice else w.filters f :=
  setFilter_filters w (.copy k) f _

theorem withCopy_data (k : Nat) (Data : FilterNode) (n : NodeId) :
    (w.withCopy k Data).filters (.data n) = w.filters (.data n) := by
  simp [withCopy_filters]

theorem draw_copy {k : Nat} {n : NodeId} {Data : FilterNode}
    (hdata : w.filters (.data n) = some Data) :
    w.draw (.copy k (.obj n)) = .ok (w.withCopy k Data) := by
  simp only [draw, hdata, withCopy]

theorem Stored.withCopy (h : w.Stored) {k : Nat} {n : NodeId} {Data : FilterNode}
    (hdata : w.filters (.data n) = some Data) : (w.withCopy k Data).Stored := by
  intro f node p hf hp
  rw [withCopy_filters] at hf
  split at hf
  · cases hf
    exact h (.data n) Data p hdata hp
  · exact h f node p hf hp

theorem destroyFilter_of_uncached {f : FilterId} {node : FilterNode}
    (hf : w.filters f = some node) (hnone : node.cachedOutput = none) :
    w.destroyFilter f = .ok (w.setFilter f none) := by
  simp only [destroyFilter, hf, hnone, deleteParameter]
  rfl

theorem draw_endOfScope {k : Nat} (hfree : w.filters (.copy k) = none) {Data : FilterNode}
    (hnone : Data.cachedOutput = none) : (w.withCopy k Data).draw (.endOfScope k) = .ok w := by
  have hself : (w.withCopy k Data).filters (.copy k) = some Data.slice := by
    rw [withCopy_filters, if_pos rfl]
  have hrestore : (w.withCopy k Data).setFilter (.copy k) none = w := by
    simp only [withCopy, setFilter, Function.update_idem]
    rw [← hfree, Function.update_eq_self]
  rw [draw, destroyFilter_of_uncached hself hnone, hrestore]

/-- A copy is destroyed safely exactly when there is nothing to delete. -/
theorem sole_copy_iff {k : Nat} {n : NodeId} {Data : FilterNode}
    (hdata : w.filters (.data n) = some Data) :
    (w.withCopy k Data).Sole (.copy k) ↔ Data.cachedOutput = none := by
  have hself : (w.withCopy k Data).filters (.copy k) = some Data.slice := by
    rw [withCopy_filters, if_pos rfl]
  constructor
  · intro hsole
    cases hc : Data.cachedOutput with
    | none => rfl
    | some p =>
      have heq := hsole (.data n) _ Data p hself ((withCopy_data k Data n).trans hdata) hc hc
      cases heq
  · intro hnone g node node' p hk _ hp _
    rw [hself] at hk
    cases hk
    cases hnone.symm.trans hp

/-- The scope of one copy, around a body that draws other nodes. -/
theorem scope_safe_iff {k : Nat} {n : NodeId} {Data : FilterNode} {body : List DrawOp}
    {B : Prop} (h : w.Stored) (hdata : w.filters (.data n) = some Data)
    (hfree : w.filters (.copy k) = none)
    (hbody : Runs.EveryStep draw DrawSafe (w.withCopy k Data) body ↔ B)
    (hrun : B → Runs.run draw (w.withCopy k Data) body = .ok (w.withCopy k Data))
    (rest : List DrawOp) :
    Runs.EveryStep draw DrawSafe w (.copy k (.obj n) :: (body ++ .endOfScope k :: rest)) ↔
      Data.cachedOutput = none ∧ B ∧ Runs.EveryStep draw DrawSafe w rest := by
  have hcopied := h.withCopy (k := k) hdata
  rw [Runs.everyStep_cons draw (draw_copy hdata)]
  constructor
  · rintro ⟨-, hall⟩
    have hB := hbody.mp hall.of_append
    rw [Runs.everyStep_append draw (hrun hB)] at hall
    have hend : (w.withCopy k Data).DrawSafe (.endOfScope k) :=
      hall.2 [] (.endOfScope k) _ (by simp) rfl
    have hnone := (sole_copy_iff hdata).mp (hend.2 k rfl)
    rw [Runs.everyStep_cons draw (draw_endOfScope hfree hnone)] at hall
    exact ⟨hnone, hB, hall.2.2⟩
  · rintro ⟨hnone, hB, hrest⟩
    refine ⟨⟨h, by simp⟩, ?_⟩
    rw [Runs.everyStep_append draw (hrun hB),
      Runs.everyStep_cons draw (draw_endOfScope hfree hnone)]
    refine ⟨hbody.mpr hB, ⟨hcopied, ?_⟩, hrest⟩
    intro k' hk
    cases hk
    exact (sole_copy_iff hdata).mpr hnone

theorem scope_run {k : Nat} {n : NodeId} {Data : FilterNode} {body : List DrawOp}
    (hdata : w.filters (.data n) = some Data) (hfree : w.filters (.copy k) = none)
    (hnone : Data.cachedOutput = none)
    (hrun : Runs.run draw (w.withCopy k Data) body = .ok (w.withCopy k Data))
    (rest : List DrawOp) :
    Runs.run draw w (.copy k (.obj n) :: (body ++ .endOfScope k :: rest)) =
      Runs.run draw w rest := by
  rw [Runs.run_cons_ok draw (draw_copy hdata), Runs.run_append draw hrun,
    Runs.run_cons_ok draw (draw_endOfScope hfree hnone)]

theorem uncached_iff {n : NodeId} {Data : FilterNode} (hdata : w.filters (.data n) = some Data) :
    w.Uncached n ↔ Data.cachedOutput = none := by
  simp [Uncached, hdata]

theorem uncached_withCopy (k : Nat) (Data : FilterNode) (n : NodeId) :
    (w.withCopy k Data).Uncached n ↔ w.Uncached n := by
  simp only [Uncached, withCopy_data]

/-! ## The two loops -/

theorem drawConnected_safe_iff (h : w.Stored) (hfree : w.filters (.copy 1) = none)
    {ms : List NodeId} (hdata : ∀ m ∈ ms, ∃ Data, w.filters (.data m) = some Data) :
    Runs.EveryStep draw DrawSafe w (drawConnected (ms.map .obj)) ↔ ∀ m ∈ ms, w.Uncached m := by
  induction ms with
  | nil => simp [drawConnected]
  | cons m ms ih =>
    obtain ⟨Data, hm⟩ := hdata m List.mem_cons_self
    have hbody : Runs.EveryStep draw DrawSafe (w.withCopy 1 Data) [] ↔ True := by simp
    have hscope := scope_safe_iff h hm hfree hbody (fun _ => rfl) (drawConnected (ms.map .obj))
    rw [List.forall_mem_cons, ← ih fun m' hm' => hdata m' (List.mem_cons_of_mem m hm'),
      uncached_iff hm]
    simpa [drawConnected] using hscope

theorem drawConnected_run (hfree : w.filters (.copy 1) = none) {ms : List NodeId}
    (hdata : ∀ m ∈ ms, ∃ Data, w.filters (.data m) = some Data) (hnone : ∀ m ∈ ms, w.Uncached m) :
    Runs.run draw w (drawConnected (ms.map .obj)) = .ok w := by
  induction ms with
  | nil => rfl
  | cons m ms ih =>
    obtain ⟨Data, hm⟩ := hdata m List.mem_cons_self
    have hclean := (uncached_iff hm).mp (hnone m List.mem_cons_self)
    have hbody : Runs.run draw (w.withCopy 1 Data) [] = .ok (w.withCopy 1 Data) := rfl
    have hscope := scope_run hm hfree hclean hbody (drawConnected (ms.map .obj))
    refine Eq.trans hscope (ih ?_ ?_)
    · intro m' hm'
      exact hdata m' (List.mem_cons_of_mem m hm')
    · intro m' hm'
      exact hnone m' (List.mem_cons_of_mem m hm')

/-- What `OnRefresh` copies for one node has no cached output. -/
def DrawsUncached (w : World) (n : NodeId) : Prop :=
  w.Uncached n ∧ ∀ m, .obj m ∈ w.heap.connectedOutgoingGet n → w.Uncached m

variable {M : Multigraph NodeId EdgeId}

theorem Built.exists_data (h : w.Built M) {n : NodeId} (hn : w.heap.isLive n) :
    ∃ Data, w.filters (.data n) = some Data := by
  obtain ⟨Data, hdata, -⟩ := h.wired n hn
  exact ⟨Data, hdata⟩

theorem Built.outgoing_eq_map (h : w.Built M) {n : NodeId} (hn : w.heap.isLive n) :
    ∃ ms : List NodeId, (w.heap.connectedOutgoingGet n).elems = ms.map .obj ∧
      (∀ m, m ∈ ms ↔ .obj m ∈ w.heap.connectedOutgoingGet n) ∧
      ∀ m ∈ ms, ∃ Data, w.filters (.data m) = some Data := by
  have hmem := h.represents.mem_connectedOutgoingGet hn
  have hobj : (w.heap.connectedOutgoingGet n).elems ∈ Set.range (List.map NodePtr.obj) := by
    rw [Set.range_list_map]
    intro p hp
    obtain ⟨m, rfl, -⟩ := (hmem p).mp (OrderedSet.mem_elems.mp hp)
    exact ⟨m, rfl⟩
  obtain ⟨ms, hms⟩ := hobj
  have hiff : ∀ m, m ∈ ms ↔ .obj m ∈ w.heap.connectedOutgoingGet n := by
    intro m
    rw [← OrderedSet.mem_elems, ← hms]
    simp
  refine ⟨ms, hms.symm, hiff, ?_⟩
  intro m hm
  obtain ⟨m', heq, hadj⟩ := (hmem (.obj m)).mp ((hiff m).mp hm)
  cases heq
  obtain ⟨e, he, -, rfl⟩ := hadj
  exact h.exists_data ((h.represents.nodes _).mpr (M.target_mem he))

theorem drawNodes_safe_iff (h : w.Built M) {ns : List NodeId}
    (hlive : ∀ n ∈ ns, w.heap.isLive n) :
    Runs.EveryStep draw DrawSafe w (w.drawNodes ns) ↔ ∀ n ∈ ns, w.DrawsUncached n := by
  induction ns with
  | nil => simp [drawNodes]
  | cons n ns ih =>
    have hn := hlive n List.mem_cons_self
    obtain ⟨Data, hdata⟩ := h.exists_data hn
    obtain ⟨ms, hms, hmem, hconnected⟩ := h.outgoing_eq_map hn
    have hfree : (w.withCopy 0 Data).filters (.copy 1) = none := by
      rw [withCopy_filters, if_neg (by simp), h.noCopy]
    have hcopies : ∀ m ∈ ms, ∃ Data', (w.withCopy 0 Data).filters (.data m) = some Data' := by
      intro m hm
      rw [withCopy_data]
      exact hconnected m hm
    have hscope := scope_safe_iff h.owned.stored hdata (h.noCopy 0)
      (drawConnected_safe_iff (Stored.withCopy h.owned.stored hdata) hfree hcopies)
      (drawConnected_run hfree hcopies) (w.drawNodes ns)
    simp only [uncached_withCopy, hmem] at hscope
    rw [List.forall_mem_cons, ← ih fun m hm => hlive m (List.mem_cons_of_mem n hm), DrawsUncached,
      uncached_iff hdata, and_assoc, drawNodes, hms]
    exact hscope

theorem drawNodes_run (h : w.Built M) {ns : List NodeId} (hlive : ∀ n ∈ ns, w.heap.isLive n)
    (hnone : ∀ n ∈ ns, w.DrawsUncached n) : Runs.run draw w (w.drawNodes ns) = .ok w := by
  induction ns with
  | nil => rfl
  | cons n ns ih =>
    have hn := hlive n List.mem_cons_self
    obtain ⟨Data, hdata⟩ := h.exists_data hn
    obtain ⟨ms, hms, hmem, hconnected⟩ := h.outgoing_eq_map hn
    obtain ⟨hself, hothers⟩ := hnone n List.mem_cons_self
    have hfree : (w.withCopy 0 Data).filters (.copy 1) = none := by
      rw [withCopy_filters, if_neg (by simp), h.noCopy]
    have hinner : Runs.run draw (w.withCopy 0 Data) (drawConnected (ms.map .obj)) =
        .ok (w.withCopy 0 Data) := by
      apply drawConnected_run hfree
      · intro m hm
        rw [withCopy_data]
        exact hconnected m hm
      · intro m hm
        rw [uncached_withCopy]
        exact hothers m ((hmem m).mp hm)
    rw [drawNodes, hms, scope_run hdata (h.noCopy 0) ((uncached_iff hdata).mp hself) hinner]
    apply ih
    · intro m hm
      exact hlive m (List.mem_cons_of_mem n hm)
    · intro m hm
      exact hnone m (List.mem_cons_of_mem n hm)

theorem Built.isLive_of_mem (h : w.Built M) {g : GraphId} {n : NodeId}
    (hn : n ∈ w.heap.nodeGetAll g) : w.heap.isLive n :=
  ((h.placed.member g n).mp hn).isLive

/-- Drawing is safe exactly when all that it copies has no cached output. -/
theorem refresh_safe_iff (h : w.Built M) (g : GraphId) :
    Runs.EveryStep draw DrawSafe w (w.refresh g) ↔
      ∀ n ∈ w.heap.nodeGetAll g, w.DrawsUncached n :=
  drawNodes_safe_iff h fun _ hn => h.isLive_of_mem (OrderedSet.mem_elems.mp hn)

theorem onRefresh_eq (h : w.Built M) {g : GraphId}
    (hnone : ∀ n ∈ w.heap.nodeGetAll g, w.DrawsUncached n) : w.onRefresh g = .ok w :=
  drawNodes_run h (fun _ hn => h.isLive_of_mem (OrderedSet.mem_elems.mp hn)) hnone

end World

end Unotu.Filter
