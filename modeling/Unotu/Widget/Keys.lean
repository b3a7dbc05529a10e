import Unotu.Widget.Dragging
import Unotu.Widget.Execution

/-!
# What each key changes

The cases of `SPACE` and of `1` have no `break`, so a press of `SPACE` also adds a node and
evaluates, and a press of `1` also evaluates. Every other key event changes only what its
own case is about.
-/

set_option autoImplicit false

namespace Unotu.Widget.FilterGraph

open Unotu.Graph Unotu.Filter

/-- The nodes, the edges, the state of the drag and the view are as they were. -/
structure KeepsGraphAndView (w w' : FilterGraph) : Prop where
  graph : w'.graph = w.graph
  heap : w'.world.heap = w.world.heap
  view : w'.view = w.view

/-- The widget has one more node, an unconnected literal, and is otherwise as it was. -/
structure AddsLiteral (w w' : FilterGraph) (n : NodeId) : Prop where
  graph : w'.graph = w.graph
  view : w'.view = w.view
  gains : w.world.heap.Gains w'.world.heap w.graph n
  literal : ∃ Position, w'.world.filters (.data n) =
    some { fnBooleanLiteral with position := Position }
  others : ∀ f, f ≠ .data n → w'.world.filters f = w.world.filters f
  store : w'.world.store = w.world.store

/-- `OUT` is evaluated, and whether that returns or stops, the rest of the widget is as it was. -/
structure EvaluatesOut (w : FilterGraph) (s : Surroundings) (out : NodeId) : Prop where
  found : w.world.HasOut w.graph out
  done : ∀ w' r, w.onKeyInput s .press .enter = .ok (w', r) → KeepsGraphAndView w w' ∧
    ∃ Result, w.world.outputGet (s.stack + 1) (.data out) = .ok (w'.world, Result)
  stopped : ∀ w' stop, w.onKeyInput s .press .enter = .error (w', stop) →
    KeepsGraphAndView w w' ∧
      w.world.outputGet (s.stack + 1) (.data out) = .error (w'.world, stop)

/-- What the binding of a key is to do. A result of `none` says that nothing was evaluated. -/
def KeyLaw (w : FilterGraph) (s : Surroundings) (Action : KeyAction) : Key → Prop
  | .home => ∃ viewOrigin,
      w.onKeyInput s Action .home = .ok (w.setView { w.view with viewOrigin }, none)
  | .space => ∃ view : View, w.onKeyInput s Action .space = .ok (w.setView view, none) ∧
      view.viewzone = w.view.viewzone ∧
      (view.viewOrigin = w.view.viewOrigin ∨ w.view.bDragging = true ∧ view.bDragging = false)
  | .one =>
    if Action = .press then
      ∃ w', w.onKeyInput s Action .one = .ok (w', none) ∧ AddsLiteral w w' s.address
    else w.onKeyInput s Action .one = .ok (w, none)
  | .enter =>
    if Action = .press then ∃ out, EvaluatesOut w s out
    else w.onKeyInput s Action .enter = .ok (w, none)
  | .other => w.onKeyInput s Action .other = .ok (w, none)

/-- The case of the key is left by falling through to the next one. -/
def FallsThrough (Action : KeyAction) (k : Key) : Prop :=
  Action = .press ∧ (k = .space ∨ k = .one)

instance (Action : KeyAction) (k : Key) : Decidable (FallsThrough Action k) :=
  inferInstanceAs (Decidable (_ ∧ (_ ∨ _)))

variable {w : FilterGraph}

theorem keyEnter_of_not_press {s : Surroundings} {Action : KeyAction} (h : Action ≠ .press) :
    w.keyEnter s Action = .ok (w, none) := if_neg h

theorem keyOne_of_not_press {s : Surroundings} {Action : KeyAction} (h : Action ≠ .press) :
    w.keyOne s Action = .ok (w, none) := by
  simp only [keyOne, if_neg h, bind, Except.bind, keyEnter_of_not_press h]

/-- The literal that a view and a screen place. -/
def placedLiteral (view : View) (screen : Screen) : FilterNode :=
  { fnBooleanLiteral with
    position := view.mousePositionInGraphCoordinates screen + view.viewOrigin * ((2 : ℚ) : DPoint) }

/-- What `GLFW_KEY_1` adds before it falls through. -/
theorem Idle.addLiteral_adds (h : w.Idle) {s : Surroundings}
    (hunused : w.world.heap.nodes s.address = .unused) :
    ∃ w', w.addLiteral s = .ok w' ∧ AddsLiteral w w' s.address ∧
      w'.world.filters (.data s.address) = some (placedLiteral w.view s.screen) := by
  obtain ⟨out, hmember, -⟩ := World.Idle.out h
  have hplaced := (World.Idle.unwired h).sound.1
  have hgraph := hplaced.alive _ _ ((hplaced.member _ _).mpr hmember)
  obtain ⟨t, u, hadd, hdrop, hgains⟩ :=
    Heap.makeMember_gains (World.Idle.unwired h).sound hgraph hunused ()
  have hnew : w.world.newNode s.address fnBooleanLiteral =
      { w.world with heap := w.world.heap.makeNode s.address () }.setFilter (.data s.address)
        (some fnBooleanLiteral) := by
    simp only [World.newNode, hunused]
  have hdata := (World.newNode_of_unused hunused fnBooleanLiteral).2
  have hadded : (w.world.newNode s.address fnBooleanLiteral).callGraph (.nodeAdd w.graph s.address) =
      .ok { w.world.newNode s.address fnBooleanLiteral with heap := t } := by
    apply World.callGraph_eq
    rw [hnew]
    exact hadd
  have hplace : ∀ Position, World.positionSet
      { w.world.newNode s.address fnBooleanLiteral with heap := t } s.address Position =
        { w.world with heap := t }.setFilter (.data s.address)
          (some { fnBooleanLiteral with position := Position }) := by
    intro Position
    simp only [World.positionSet, hdata]
    rw [hnew]
    simp only [World.setFilter, Function.update_idem]
  have hdropped : ∀ Position, World.callGraph ({ w.world with heap := t }.setFilter (.data s.address)
      (some { fnBooleanLiteral with position := Position })) (.dropNode s.address) =
        .ok ({ w.world with heap := u }.setFilter (.data s.address)
          (some { fnBooleanLiteral with position := Position })) := by
    intro Position
    exact World.callGraph_eq hdrop
  have hcall : w.addLiteral s = .ok (w.setWorld ({ w.world with heap := u }.setFilter
      (.data s.address) (some (placedLiteral w.view s.screen)))) := by
    simp only [FilterGraph.addLiteral, hunused, hadded, hplace, hdropped, bind, Except.bind,
      FilterGraph.onWorld]
    rfl
  refine ⟨_, hcall, ⟨rfl, rfl, hgains, ⟨_, Function.update_self ..⟩, ?_, rfl⟩,
    Function.update_self ..⟩
  intro f hf
  exact Function.update_of_ne hf ..

/-- A press of `1` ends in the fault of the evaluation, with what was added. -/
theorem Idle.keyOne_press (h : w.Idle) {s : Surroundings} {w' : FilterGraph}
    (hadd : w.addLiteral s = .ok w') :
    w.keyOne s .press = .error (w', .fault .nullDereference) := by
  obtain ⟨w'', hadd', hidle⟩ := h.addLiteral s
  rw [hadd] at hadd'
  cases hadd'
  simp only [FilterGraph.keyOne, if_true, hadd, bind, Except.bind, hidle.keyEnter s]

/-- A press that falls through ends in that fault, a press of `SPACE` with the drag started, and
has added the literal. -/
theorem Idle.fallsThrough_spec (h : w.Idle) (s : Surroundings) {Action : KeyAction} {k : Key}
    (hfalls : FallsThrough Action k) :
    ∃ w', w.onKeyInput s Action k = .error (w', .fault .nullDereference) ∧
      (w.world.heap.nodes s.address = .unused → AddsLiteral (w.setView w'.view) w' s.address ∧
        w'.world.filters (.data s.address) = some (placedLiteral w'.view s.screen) ∧
        w'.view.viewzone = w.view.viewzone) := by
  have hview : ∃ view : View, w.onKeyInput s Action k = (w.setView view).keyOne s .press ∧
      view.viewzone = w.view.viewzone := by
    obtain ⟨rfl, rfl | rfl⟩ := hfalls
    · exact ⟨w.view.startDragging s.screen, rfl, rfl⟩
    · exact ⟨w.view, rfl, rfl⟩
  obtain ⟨view, hkey, hzone⟩ := hview
  have hidle : (w.setView view).Idle := h
  obtain ⟨w', hadd, -⟩ := hidle.addLiteral s
  refine ⟨w', hkey.trans (hidle.keyOne_press hadd), ?_⟩
  intro hunused
  obtain ⟨w'', hadd', hadds, hliteral⟩ := hidle.addLiteral_adds hunused
  rw [hadd] at hadd'
  cases hadd'
  have hsame : w'.view = view := hadds.view
  rw [hsame]
  exact ⟨hadds, hliteral, hzone⟩

theorem stopDragging_view (view : View) (screen : Screen) :
    (view.stopDragging screen).viewzone = view.viewzone ∧
      ((view.stopDragging screen).viewOrigin = view.viewOrigin ∨
        view.bDragging = true ∧ (view.stopDragging screen).bDragging = false) := by
  unfold View.stopDragging
  split
  · rename_i hdragging
    exact ⟨rfl, Or.inr ⟨hdragging, rfl⟩⟩
  · exact ⟨rfl, Or.inl rfl⟩

theorem keyLaw_of_not_fallsThrough (h : w.Idle) (s : Surroundings) {Action : KeyAction} {k : Key}
    (hfalls : ¬ FallsThrough Action k) : KeyLaw w s Action k := by
  cases k with
  | home =>
    by_cases hpress : Action = .press
    · subst Action
      exact ⟨⟨0, 0⟩, rfl⟩
    · refine ⟨w.view.viewOrigin, ?_⟩
      simp only [onKeyInput, keyHome, ne_eq, hpress, not_false_eq_true, if_true]
      rfl
  | space =>
    have hpress : Action ≠ .press := fun heq => hfalls ⟨heq, Or.inl rfl⟩
    cases Action with
    | press => exact absurd rfl hpress
    | release =>
      obtain ⟨hzone, horigin⟩ := stopDragging_view w.view s.screen
      exact ⟨w.view.stopDragging s.screen, keyOne_of_not_press hpress, hzone, horigin⟩
    | «repeat» => exact ⟨w.view, keyOne_of_not_press hpress, rfl, Or.inl rfl⟩
  | one =>
    have hpress : Action ≠ .press := fun heq => hfalls ⟨heq, Or.inr rfl⟩
    simp only [KeyLaw, if_neg hpress]
    exact keyOne_of_not_press hpress
  | enter =>
    by_cases hpress : Action = .press
    · subst Action
      obtain ⟨out, hout⟩ := World.Idle.out h
      have hfault : w.onKeyInput s .press .enter = .error (w, .fault .nullDereference) :=
        h.keyEnter s
      obtain ⟨node, hnode, hkind⟩ := hout.data
      simp only [KeyLaw, if_true]
      refine ⟨out, hout, ?_, ?_⟩
      · intro w' r hok
        rw [hfault] at hok
        cases hok
      · intro w' stop herror
        rw [hfault] at herror
        cases herror
        exact ⟨⟨rfl, rfl, rfl⟩,
          World.outputGet_unwired (World.Idle.unwired h) hnode hkind s.stack⟩
    · simp only [KeyLaw, if_neg hpress]
      exact keyEnter_of_not_press hpress
  | other => rfl

theorem not_keyLaw_of_fallsThrough (h : w.Idle) (s : Surroundings) {Action : KeyAction} {k : Key}
    (hfalls : FallsThrough Action k) : ¬ KeyLaw w s Action k := by
  obtain ⟨w', hfault, -⟩ := h.fallsThrough_spec s hfalls
  obtain ⟨rfl, rfl | rfl⟩ := hfalls
  · rintro ⟨view, hok, -⟩
    rw [hfault] at hok
    cases hok
  · simp only [KeyLaw, if_true]
    rintro ⟨w'', hok, -⟩
    rw [hfault] at hok
    cases hok

theorem Idle.keyLaw_iff (h : w.Idle) (s : Surroundings) (Action : KeyAction) (k : Key) :
    KeyLaw w s Action k ↔ ¬ FallsThrough Action k := by
  constructor
  · intro hlaw hfalls
    exact not_keyLaw_of_fallsThrough h s hfalls hlaw
  · exact keyLaw_of_not_fallsThrough h s

/-! ## Runs of key events -/

theorem Idle.keyInput_cases (h : w.Idle) (s : Surroundings) {Action : KeyAction} {k : Key}
    (hfalls : ¬ FallsThrough Action k) :
    (∃ view, w.onKeyInput s Action k = .ok (w.setView view, none)) ∨
      w.onKeyInput s Action k = .error (w, .fault .nullDereference) := by
  have hlaw := keyLaw_of_not_fallsThrough h s hfalls
  cases k with
  | home =>
    obtain ⟨viewOrigin, hok⟩ := hlaw
    exact Or.inl ⟨_, hok⟩
  | space =>
    obtain ⟨view, hok, -⟩ := hlaw
    exact Or.inl ⟨view, hok⟩
  | one =>
    have hpress : Action ≠ .press := fun heq => hfalls ⟨heq, Or.inr rfl⟩
    exact Or.inl ⟨w.view, keyOne_of_not_press hpress⟩
  | enter =>
    by_cases hpress : Action = .press
    · subst Action
      exact Or.inr (h.keyEnter s)
    · exact Or.inl ⟨w.view, keyEnter_of_not_press hpress⟩
  | other => exact Or.inl ⟨w.view, rfl⟩

structure KeyEvent where
  surroundings : Surroundings
  action : KeyAction
  key : Key

def KeyEvent.toInput (e : KeyEvent) : Surroundings × Event :=
  (e.surroundings, .onKeyInput e.action e.key)

/-- The widget after a run, also when the run ended early. -/
def widgetAfter : Except Halted FilterGraph → FilterGraph
  | .ok w => w
  | .error (w, _) => w

/-- The events up to the one that does not return; later ones never reach the widget. -/
def handled : FilterGraph → List KeyEvent → List KeyEvent
  | _, [] => []
  | w, e :: keys =>
    e :: match w.step e.toInput with
      | .ok w' => handled w' keys
      | .error _ => []

def nodeCount (world : World) (g : GraphId) : Nat := (world.heap.nodeGetAll g).elems.length

def pressesOf (k : Key) (keys : List KeyEvent) : Nat :=
  keys.countP fun e => e.action = .press ∧ e.key = k

theorem AddsLiteral.nodeCount {w' : FilterGraph} {n : NodeId} (h : AddsLiteral w w' n) :
    nodeCount w'.world w.graph = nodeCount w.world w.graph + 1 := by
  simp only [FilterGraph.nodeCount, Heap.nodeGetAll, h.gains.nodes]
  exact OrderedSet.length_insert h.gains.fresh

theorem step_keyInput (w : FilterGraph) (e : KeyEvent) :
    w.step e.toInput = (w.onKeyInput e.surroundings e.action e.key).map Prod.fst := rfl

/-- Over any key events each press that falls through and that the widget handles adds a node, and
no other event does. -/
theorem Idle.run_nodeCount (h : w.Idle) (keys : List KeyEvent)
    (hunused : ∀ e ∈ keys, FallsThrough e.action e.key →
      w.world.heap.nodes e.surroundings.address = .unused) :
    nodeCount (widgetAfter (Runs.run FilterGraph.step w (keys.map KeyEvent.toInput))).world w.graph =
      nodeCount w.world w.graph +
        (pressesOf .space (handled w keys) + pressesOf .one (handled w keys)) := by
  induction keys generalizing w with
  | nil => rfl
  | cons e keys ih =>
    rw [List.map_cons]
    by_cases hfalls : FallsThrough e.action e.key
    · obtain ⟨w', hkey, hadded⟩ := h.fallsThrough_spec e.surroundings hfalls
      obtain ⟨hadds, -⟩ := hadded (hunused e List.mem_cons_self hfalls)
      have hstep : FilterGraph.step w e.toInput = .error (w', .fault .nullDereference) := by
        rw [step_keyInput, hkey]
        rfl
      rw [Runs.run_cons_error _ hstep, handled, hstep]
      have hcount : pressesOf .space [e] + pressesOf .one [e] = 1 := by
        obtain ⟨hpress, hspace | hone⟩ := hfalls
        · simp [pressesOf, hpress, hspace]
        · simp [pressesOf, hpress, hone]
      rw [hcount]
      exact hadds.nodeCount
    · have hrest : ∀ e' ∈ keys, FallsThrough e'.action e'.key →
          w.world.heap.nodes e'.surroundings.address = .unused :=
        fun e' he' => hunused e' (List.mem_cons_of_mem e he')
      have hnone : ∀ rest, pressesOf .space (e :: rest) + pressesOf .one (e :: rest) =
          pressesOf .space rest + pressesOf .one rest := by
        intro rest
        have hspace : ¬ (e.action = .press ∧ e.key = .space) :=
          fun hpress => hfalls ⟨hpress.1, Or.inl hpress.2⟩
        have hone : ¬ (e.action = .press ∧ e.key = .one) :=
          fun hpress => hfalls ⟨hpress.1, Or.inr hpress.2⟩
        simp only [pressesOf, List.countP_cons, hspace, hone, decide_false, Bool.false_eq_true,
          if_false, Nat.add_zero]
      rcases h.keyInput_cases e.surroundings hfalls with ⟨view, hok⟩ | hfault
      · have hstep : FilterGraph.step w e.toInput = .ok (w.setView view) := by
          rw [step_keyInput, hok]
          rfl
        rw [Runs.run_cons_ok _ hstep, handled, hstep, hnone]
        have hidle : (w.setView view).Idle := h
        exact ih hidle hrest
      · have hstep : FilterGraph.step w e.toInput = .error (w, .fault .nullDereference) := by
          rw [step_keyInput, hfault]
          rfl
        rw [Runs.run_cons_error _ hstep, handled, hstep, hnone]
        rfl

/-- In every state that events lead to, the binding of a key keeps its law exactly when the
event does not fall through. Over any key events that the widget handles the number of nodes
grows by the presses of `SPACE` and of `1`, so by the presses of `1` exactly when `SPACE` is not
pressed. -/
theorem run_keyLaws (a : Addresses) (events : List (Surroundings × Event)) :
    ∃ w₀, construct a = .ok w₀ ∧ Runs.Along step
      (fun w => (∀ s Action k, KeyLaw w s Action k ↔ ¬ FallsThrough Action k) ∧
        ∀ keys : List KeyEvent, (∀ e ∈ keys, FallsThrough e.action e.key →
            w.world.heap.nodes e.surroundings.address = .unused) →
          nodeCount (widgetAfter (Runs.run step w (keys.map KeyEvent.toInput))).world w.graph =
              nodeCount w.world w.graph +
                (pressesOf .space (handled w keys) + pressesOf .one (handled w keys)) ∧
            (nodeCount (widgetAfter (Runs.run step w (keys.map KeyEvent.toInput))).world w.graph =
                nodeCount w.world w.graph + pressesOf .one (handled w keys) ↔
              ∀ e ∈ handled w keys, ¬ (e.action = .press ∧ e.key = .space))) w₀ events := by
  obtain ⟨w₀, hw₀, hidle₀⟩ := construct_idle a
  refine ⟨w₀, hw₀, ?_⟩
  intro before w _ hrun
  have hidle : w.Idle := Runs.run_preserves step (fun _ _ _ h hs => h.step hs) hidle₀ hrun
  refine ⟨fun s Action k => hidle.keyLaw_iff s Action k, ?_⟩
  intro keys hunused
  have hcount := hidle.run_nodeCount keys hunused
  refine ⟨hcount, ?_⟩
  have hspace : pressesOf .space (handled w keys) = 0 ↔
      ∀ e ∈ handled w keys, ¬ (e.action = .press ∧ e.key = .space) := by
    simp only [pressesOf, List.countP_eq_zero, decide_eq_true_iff]
  rw [hcount, ← hspace]
  omega

/-- A press while the next free address is 4. -/
def anyPress : Surroundings := ⟨View.wideScreen, false, 4, 100⟩

/-- In a fresh widget a press of `SPACE` adds a node, evaluates, and dereferences null there. -/
theorem space_adds_node :
    ∃ w w', construct ascending = .ok w ∧
      w.onKeyInput anyPress .press .space = .error (w', .fault .nullDereference) ∧
      nodeCount w.world w.graph = 4 ∧ nodeCount w'.world w.graph = 5 ∧
      ¬ KeyLaw w anyPress .press .space := by
  have hrun : ∃ w w', construct ascending = .ok w ∧
      w.onKeyInput anyPress .press .space = .error (w', .fault .nullDereference) ∧
      nodeCount w.world w.graph = 4 ∧ nodeCount w'.world w.graph = 5 := ⟨_, _, rfl, rfl, rfl, rfl⟩
  obtain ⟨w, w', hw, hspace, hbefore, hafter⟩ := hrun
  refine ⟨w, w', hw, hspace, hbefore, hafter, ?_⟩
  rintro ⟨view, hok, -⟩
  rw [hspace] at hok
  cases hok

end Unotu.Widget.FilterGraph
