import Unotu.Graph.Sweeping

/-!
# A node lives exactly as long as it is owned

Nodes own edges and graphs own nodes, while edges refer back weakly, so no cycle of owners
keeps anything alive. In every state of every run a node is alive exactly when some caller or
some graph owns it, also when graphs were destroyed under nodes that callers own.
-/

set_option autoImplicit false

namespace Unotu.Graph.Heap

open Multigraph

variable {ν ε : Type} {s t : Heap ν ε} {M : Multigraph NodeId EdgeId}

/-- No node leaks, no owner has a destroyed node, and no destructor is left half way. -/
structure Accounted (s : Heap ν ε) : Prop where
  alive_iff : ∀ n, s.isLive n ↔ s.owned n
  settled : ∀ n node, s.nodes n ≠ .dying node

theorem Rostered.owned_iff (h : s.Rostered) (n : NodeId) :
    s.owned n ↔ s.held n ∨ ∃ g, n ∈ s.graphNodes g := by
  rw [owned, Bool.or_eq_true, List.any_eq_true]
  refine or_congr_right ⟨?_, ?_⟩
  · rintro ⟨g, -, hg⟩
    exact ⟨g, by simpa using hg⟩
  · rintro ⟨g, hg⟩
    exact ⟨g, h.alive hg, by simpa using hg⟩

/-! ## Who owns a node after a write -/

theorem mem_nodeRemove (s : Heap ν ε) (g g' : GraphId) (n m : NodeId) :
    m ∈ (s.nodeRemove g (.obj n)).graphNodes g' ↔ m ∈ s.graphNodes g' ∧ ¬ (g' = g ∧ m = n) := by
  unfold nodeRemove
  simp only
  split
  · change m ∈ (s.setGraphNodes g _).graphNodes g' ↔ _
    rw [mem_setGraphNodes]
    split
    · subst g'
      simp
    · rename_i hg
      simp [hg]
  · rename_i hn
    refine (and_iff_left_of_imp ?_).symm
    rintro hm ⟨rfl, rfl⟩
    exact hn hm

theorem mem_enterGraph (s : Heap ν ε) (g g' : GraphId) (n m : NodeId) :
    m ∈ (s.enterGraph g n).graphNodes g' ↔ g' = g ∧ m = n ∨ m ∈ s.graphNodes g' := by
  change m ∈ (s.setGraphNodes g _).graphNodes g' ↔ _
  rw [mem_setGraphNodes]
  split
  · subst g'
    simp
  · rename_i hg
    simp [hg]

theorem mem_detachAll (s : Heap ν ε) (g g' : GraphId) (m : NodeId) :
    m ∈ (s.detachAll g).graphNodes g' ↔ g' ≠ g ∧ m ∈ s.graphNodes g' := by
  rw [detachAll, mem_setGraphNodes, (foldl_clearParent_graphNodes _).1]
  split
  · rename_i hg
    simp [hg]
  · rename_i hg
    simp [hg]

/-! ## Releases -/

/-- Whatever is alive is owned or about to be released. -/
structure Covered (s : Heap ν ε) (ns : List NodeId) : Prop where
  live : ∀ n, s.owned n → s.isLive n
  owned : ∀ n, s.isLive n → n ∉ ns → s.owned n

theorem Covered.swept {ns : List NodeId} (h : s.Covered ns) (hrep : s.Represents M)
    (hswept : s.Swept M ns t) (n : NodeId) : t.isLive n ↔ t.owned n := by
  rw [hswept.represents.nodes, hswept.owned]
  change n ∈ M.nodes ∧ ¬ (n ∈ ns ∧ s.owned n = false) ↔ _
  rw [← hrep.nodes]
  constructor
  · rintro ⟨hlive, hnot⟩
    by_cases hn : n ∈ ns
    · rw [← Bool.not_eq_false]
      exact fun hfalse => hnot ⟨hn, hfalse⟩
    · exact h.owned n hlive hn
  · intro hown
    refine ⟨h.live n hown, ?_⟩
    rintro ⟨-, hfalse⟩
    rw [hown] at hfalse
    cases hfalse

/-- The owners may have become fewer, and every node that lost one is released. -/
theorem Covered.of_fewer {ns : List NodeId} (hs : ∀ n, s.isLive n ↔ s.owned n) (hros : s.Rostered)
    (hros' : t.Rostered) (hlive : ∀ n, t.isLive n = s.isLive n)
    (hheld : ∀ n, t.held n → s.held n) (hmem : ∀ g n, n ∈ t.graphNodes g → n ∈ s.graphNodes g)
    (hheld' : ∀ n, s.held n → n ∉ ns → t.held n)
    (hmem' : ∀ g n, n ∈ s.graphNodes g → n ∉ ns → n ∈ t.graphNodes g) : t.Covered ns where
  live n hn := by
    rw [hlive, hs, hros.owned_iff]
    rcases (hros'.owned_iff n).mp hn with hheldn | ⟨g, hg⟩
    · exact Or.inl (hheld n hheldn)
    · exact Or.inr ⟨g, hmem g n hg⟩
  owned n hn hns := by
    rw [hlive, hs, hros.owned_iff] at hn
    rw [hros'.owned_iff]
    rcases hn with hheldn | ⟨g, hg⟩
    · exact Or.inl (hheld' n hheldn hns)
    · exact Or.inr ⟨g, hmem' g n hg hns⟩

theorem covered_drop (hs : ∀ n, s.isLive n ↔ s.owned n) (hros : s.Rostered) (n : NodeId) :
    (s.setHeld n false).Covered [n] := by
  apply Covered.of_fewer hs hros (hros.setHeld n false) (fun _ => rfl)
  · intro m hm
    by_cases hmn : m = n
    · simp [setHeld, hmn] at hm
    · simpa [setHeld, hmn] using hm
  · exact fun _ _ hm => hm
  · intro m hm hmn
    rw [List.mem_singleton] at hmn
    simpa [setHeld, hmn] using hm
  · exact fun _ _ hm _ => hm

theorem covered_remove (hs : ∀ n, s.isLive n ↔ s.owned n) (hros : s.Rostered)
    (hrep : s.Represents M) (g : GraphId) (n : NodeId) :
    (s.nodeRemove g (.obj n)).Covered [n] := by
  have hheld := (nodeRemove_frame s g (.obj n)).2
  apply Covered.of_fewer hs hros (hros.nodeRemove g _) (isLive_nodeRemove hrep g _)
  · rw [hheld]
    exact fun _ hm => hm
  · exact fun g' m hm => ((mem_nodeRemove s g g' n m).mp hm).1
  · rw [hheld]
    exact fun _ hm _ => hm
  · intro g' m hm hmn
    rw [List.mem_singleton] at hmn
    exact (mem_nodeRemove s g g' n m).mpr ⟨hm, fun hmn' => hmn hmn'.2⟩

theorem covered_removeAll (hs : ∀ n, s.isLive n ↔ s.owned n) (hros : s.Rostered)
    (hrep : s.Represents M) (g : GraphId) : (s.detachAll g).Covered (s.graphNodes g).elems := by
  have hheld : (s.detachAll g).held = s.held := foldl_clearParent_held _
  apply Covered.of_fewer hs hros (hros.detachAll g)
  · intro m
    rw [Bool.eq_iff_iff, (detachAll_represents hrep g).nodes, hrep.nodes]
  · rw [hheld]
    exact fun _ hm => hm
  · exact fun g' m hm => ((mem_detachAll s g g' m).mp hm).2
  · rw [hheld]
    exact fun _ hm _ => hm
  · intro g' m hm hmem
    refine (mem_detachAll s g g' m).mpr ⟨?_, hm⟩
    rintro rfl
    exact hmem hm

theorem covered_destroy (hs : ∀ n, s.isLive n ↔ s.owned n) (hros : s.Rostered) (g : GraphId) :
    (s.withoutGraph g).Covered (s.graphNodes g).elems := by
  apply Covered.of_fewer hs hros (hros.withoutGraph g) (fun _ => rfl)
  · exact fun _ hm => hm
  · exact fun g' m hm => (mem_withoutGraph.mp hm).2
  · exact fun _ hm _ => hm
  · intro g' m hm hmem
    refine mem_withoutGraph.mpr ⟨?_, hm⟩
    rintro rfl
    exact hmem hm

/-! ## Steps -/

/-- A write that neither gives nor takes an owner. -/
theorem alive_iff_of_same (hs : ∀ n, s.isLive n ↔ s.owned n) (hros : s.Rostered)
    (hros' : t.Rostered) (hlive : ∀ n, t.isLive n = s.isLive n)
    (hheld : ∀ n, t.held n ↔ s.held n) (hmem : ∀ g n, n ∈ t.graphNodes g ↔ n ∈ s.graphNodes g)
    (n : NodeId) : t.isLive n ↔ t.owned n := by
  rw [hlive, hs, hros.owned_iff, hros'.owned_iff, hheld]
  simp only [hmem]

/-- A living node gets an owner more. -/
theorem alive_iff_of_more (hs : ∀ n, s.isLive n ↔ s.owned n) (hros : s.Rostered)
    (hros' : t.Rostered) (hlive : ∀ n, t.isLive n = s.isLive n) {n : NodeId} (hn : s.isLive n)
    (hown : t.held n ∨ ∃ g, n ∈ t.graphNodes g) (hheld : ∀ m ≠ n, t.held m ↔ s.held m)
    (hmem : ∀ g, ∀ m ≠ n, m ∈ t.graphNodes g ↔ m ∈ s.graphNodes g) (m : NodeId) :
    t.isLive m ↔ t.owned m := by
  by_cases hm : m = n
  · subst m
    rw [hlive, hros'.owned_iff]
    exact iff_of_true hn hown
  · rw [hlive, hs, hros.owned_iff, hros'.owned_iff, hheld m hm]
    refine or_congr_right (exists_congr fun g => ?_)
    exact (hmem g m hm).symm

theorem step_alive_iff (hs : ∀ n, s.isLive n ↔ s.owned n) (hros : s.Rostered)
    (hrep : s.Represents M) {op : Op ν ε} (ht : s.step op = .ok t) (n : NodeId) :
    t.isLive n ↔ t.owned n := by
  have hros' := hros.step hrep ht
  cases step_effect ht with
  | nothing => exact hs n
  | @makeGraph g =>
    have hframe : (s.makeGraph g).held = s.held ∧ (s.makeGraph g).nodes = s.nodes := by
      unfold makeGraph
      split <;> exact ⟨rfl, rfl⟩
    apply alive_iff_of_same hs hros hros'
    · intro m
      rw [isLive, lock, hframe.2]
      rfl
    · simp [hframe.1]
    · intro g' m
      unfold makeGraph
      split
      · exact Iff.rfl
      · rename_i hg
        change m ∈ (s.setGraphNodes g ∅).graphNodes g' ↔ _
        rw [mem_setGraphNodes]
        split
        · subst g'
          exact iff_of_false (OrderedSet.notMem_empty m) fun hm => hg (hros.alive hm)
        · exact Iff.rfl
  | @makeNode k Data hunused =>
    simp only [makeNode, hunused] at hros' ⊢
    by_cases hn : n = k
    · subst n
      rw [hros'.owned_iff]
      exact iff_of_true (by simp [isLive_iff]) (Or.inl (by simp))
    · have hsame : Function.update s.nodes k (.live { data := Data }) n = s.nodes n :=
        Function.update_of_ne hn ..
      rw [hros'.owned_iff, isLive, lock]
      simp only [hsame, Function.update_of_ne hn]
      exact (hs n).trans (hros.owned_iff n)
  | @hold k hk =>
    apply alive_iff_of_more hs hros hros' (fun _ => rfl) hk
    · exact Or.inl (by simp [setHeld])
    · intro m hm
      simp [setHeld, hm]
    · exact fun _ _ _ => Iff.rfl
  | @drop k hk =>
    have hrep' := hrep.setHeld k false
    exact (covered_drop hs hros k).swept hrep' (hrep'.release_swept k) n
  | @enter g k hg hk hnone =>
    apply alive_iff_of_more hs hros hros' _ hk
    · exact Or.inr ⟨g, (mem_enterGraph s g g k k).mpr (Or.inl ⟨rfl, rfl⟩)⟩
    · exact fun _ _ => Iff.rfl
    · intro g' m hm
      rw [mem_enterGraph]
      exact or_iff_right fun hmk => hm hmk.2
    · exact fun m => isLive_modifyNode
  | @move g g₀ k hg hk hg₀ _ =>
    apply alive_iff_of_more hs hros hros' _ hk
    · exact Or.inr ⟨g, (mem_enterGraph _ g g k k).mpr (Or.inl ⟨rfl, rfl⟩)⟩
    · intro m _
      change (s.nodeRemove g₀ (.obj k)).held m ↔ _
      rw [(nodeRemove_frame s g₀ (.obj k)).2]
    · intro g' m hm
      rw [mem_enterGraph, mem_nodeRemove]
      constructor
      · intro hmem
        exact (hmem.resolve_left fun hmk => hm hmk.2).1
      · exact fun hmem => Or.inr ⟨hmem, fun hmk => hm hmk.2⟩
    · exact fun m => isLive_modifyNode.trans (isLive_nodeRemove hrep g₀ _ m)
  | @remove g k hg hk =>
    have hrep' := hrep.nodeRemove g (.obj k)
    exact (covered_remove hs hros hrep g k).swept hrep' (hrep'.release_swept k) n
  | @removeAll g hg =>
    have hrep' := detachAll_represents hrep g
    exact (covered_removeAll hs hros hrep g).swept hrep' (hrep'.foldl_release_swept _) n
  | @connect this d Data e hthis hd hfresh =>
    apply alive_iff_of_same hs hros hros' (fun m => isLive_addEdge)
    · exact fun _ => Iff.rfl
    · exact fun _ _ => Iff.rfl
  | @cut e =>
    have heq := hrep.mirrored.cut_eq e
    rw [heq] at hros' ⊢
    apply alive_iff_of_same hs hros hros' (fun m => eraseEdges_isLive s _ m)
    · exact fun _ => Iff.rfl
    · exact fun _ _ => Iff.rfl

theorem stepLifetime_alive_iff (hs : ∀ n, s.isLive n ↔ s.owned n) (hros : s.Rostered)
    (hrep : s.Represents M) {op : LifetimeOp ν ε} (ht : s.stepLifetime op = .ok t) (n : NodeId) :
    t.isLive n ↔ t.owned n := by
  cases op with
  | call op => exact step_alive_iff hs hros hrep ht n
  | destroyGraph g =>
    cases ht
    split
    · have hrep' := withoutGraph_represents hrep g
      exact (covered_destroy hs hros g).swept hrep' (hrep'.foldl_release_swept _) n
    · exact hs n

/-! ## Nodes do not come back -/

/-- No destructor is left half way, and a destroyed node stays destroyed. -/
structure Ages (s t : Heap ν ε) : Prop where
  dying : ∀ n node, t.nodes n = .dying node → s.nodes n = .dying node
  expired : ∀ n, s.nodes n = .expired → t.nodes n = .expired

theorem KeepsCells.ages (h : KeepsCells s t) : s.Ages t := ⟨h.dying, h.expired⟩

theorem Ages.trans {u : Heap ν ε} (h : s.Ages t) (h' : t.Ages u) : s.Ages u where
  dying n node hnode := h.dying n node (h'.dying n node hnode)
  expired n hn := h'.expired n (h.expired n hn)

theorem makeNode_ages {n : NodeId} (hunused : s.nodes n = .unused) (Data : ν) :
    s.Ages (s.makeNode n Data) := by
  simp only [makeNode, hunused]
  constructor
  · intro m node hnode
    by_cases hm : m = n
    · simp [hm] at hnode
    · simpa [hm] using hnode
  · intro m hm
    have hne : m ≠ n := by
      rintro rfl
      rw [hunused] at hm
      cases hm
    simpa [hne] using hm

theorem step_ages (hrep : s.Represents M) {op : Op ν ε} (ht : s.step op = .ok t) : s.Ages t := by
  have hset : ∀ n holds, KeepsCells s (s.setHeld n holds) := fun _ _ => .of_nodes rfl rfl
  cases step_effect ht with
  | nothing => exact (KeepsCells.refl s).ages
  | @makeGraph g =>
    unfold makeGraph
    split
    · exact (KeepsCells.refl s).ages
    · exact KeepsCells.ages (.of_nodes rfl rfl)
  | makeNode hunused => exact makeNode_ages hunused _
  | hold _ => exact (hset _ true).ages
  | drop _ => exact ((hset _ false).trans ((hrep.setHeld _ false).release_swept _).cells).ages
  | enter _ _ _ => exact (KeepsCells.enterGraph s _ _).ages
  | move _ _ _ _ => exact ((KeepsCells.nodeRemove s _ _).trans (.enterGraph _ _ _)).ages
  | remove _ _ =>
    exact ((KeepsCells.nodeRemove s _ _).trans ((hrep.nodeRemove _ _).release_swept _).cells).ages
  | @removeAll g _ =>
    have hswept := (detachAll_represents hrep g).foldl_release_swept (s.graphNodes g).elems
    exact ((KeepsCells.detachAll s g).trans hswept.cells).ages
  | @connect this d Data e _ _ _ =>
    have hcells := KeepsCells.addEdge s this d e ⟨this, d, Data⟩
    exact ⟨hcells.dying, hcells.expired⟩
  | cut =>
    rw [hrep.mirrored.cut_eq]
    exact (KeepsCells.eraseEdges s _).ages

theorem stepLifetime_ages (hrep : s.Represents M) {op : LifetimeOp ν ε}
    (ht : s.stepLifetime op = .ok t) : s.Ages t := by
  cases op with
  | call op => exact step_ages hrep ht
  | destroyGraph g =>
    cases ht
    split
    · have hswept := (withoutGraph_represents hrep g).foldl_release_swept (s.graphNodes g).elems
      have hcells : KeepsCells s (s.withoutGraph g) := .of_nodes rfl rfl
      exact (hcells.trans hswept.cells).ages
    · exact (KeepsCells.refl s).ages

/-! ## Runs -/

/-- What a run keeps of the heap it started from. -/
structure Since (s₀ s : Heap ν ε) : Prop where
  kept : ∃ M, s.Kept M
  accounted : s.Accounted
  ages : s₀.Ages s

theorem Since.step {s₀ : Heap ν ε} (h : s₀.Since s) {op : LifetimeOp ν ε}
    (ht : s.stepLifetime op = .ok t) : s₀.Since t := by
  obtain ⟨M, hrep, hros⟩ := h.kept
  obtain ⟨M', hrep'⟩ := stepLifetime_represents hrep ht
  have hages := stepLifetime_ages hrep ht
  refine ⟨⟨M', hrep', hros.stepLifetime hrep ht⟩, ⟨?_, ?_⟩, h.ages.trans hages⟩
  · exact stepLifetime_alive_iff h.accounted.alive_iff hros hrep ht
  · exact fun n node hnode => h.accounted.settled n node (hages.dying n node hnode)

theorem Since.run {s₀ : Heap ν ε} (h : s₀.Since s) {ops : List (LifetimeOp ν ε)}
    (ht : Runs.run Heap.stepLifetime s ops = .ok t) : s₀.Since t :=
  Runs.run_preserves Heap.stepLifetime (fun _ _ _ h ht => h.step ht) h ht

theorem since_empty : (Heap.empty : Heap ν ε).Since Heap.empty where
  kept := ⟨_, empty_represents, empty_rostered⟩
  accounted := ⟨by simp [Heap.empty, isLive_iff, owned], by simp [Heap.empty]⟩
  ages := (KeepsCells.refl _).ages

/-- In every state of a run a node is alive exactly when somebody owns it, and once it was
destroyed nobody ever owns it again. -/
theorem run_accounted (ops : List (LifetimeOp ν ε)) :
    Runs.Along stepLifetime (fun s => s.Accounted ∧ ∀ later t,
      Runs.run stepLifetime s later = .ok t → ∀ n, s.nodes n = .expired →
        t.nodes n = .expired ∧ t.owned n = false) Heap.empty ops := by
  intro before s _ hs
  have hsince := since_empty.run hs
  refine ⟨hsince.accounted, ?_⟩
  intro later t ht n hn
  have hlater : s.Since t :=
    Since.run ⟨hsince.kept, hsince.accounted, (KeepsCells.refl s).ages⟩ ht
  have hexpired := hlater.ages.expired n hn
  refine ⟨hexpired, ?_⟩
  rw [← Bool.not_eq_true, ← hlater.accounted.alive_iff]
  simp [isLive_iff, hexpired]

end Unotu.Graph.Heap
