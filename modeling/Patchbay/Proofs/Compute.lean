import Mathlib.Data.List.Sort
import Patchbay.Proofs.Live

/-
Computing boxes one after the other.

A list of boxes is `Ready` if none is there twice and each comes after all sources of
its signal wires.  Computing a ready list has an effect that can be said without the
list: every box on it becomes what it makes of the buffers as they are in the end, and
every other box stays.  The reason is that whatever a box reads has been computed
before and is not computed again.

So two ready lists of the same boxes come to the same, by going along the ranks of the
boxes, if only the output is mixed in the same order; of the built-in kinds that is a
matter of the `dac~` boxes alone.
-/

namespace Patchbay

namespace Graph

variable {κ : Type} {g : Graph κ}

/-- Lists without repetition on which every box follows all sources of its signal wires. -/
inductive Ready (g : Graph κ) : List Nat → Prop
  | nil : Ready g []
  | snoc {order : List Nat} {n : Nat} (h : Ready g order) (hNew : n ∉ order)
      (hSources : ∀ source, g.SignalWire source n → source ∈ order) : Ready g (order ++ [n])

theorem Ready.sources {order : List Nat} (h : g.Ready order) :
    ∀ n ∈ order, ∀ source, g.SignalWire source n → source ∈ order := by
  induction h with
  | nil => intro n hn; simp at hn
  | snoc _ _ hSources ih =>
      intro n hn source hWire
      rw [List.mem_append] at hn ⊢
      rcases hn with hn | hn
      · exact .inl (ih n hn source hWire)
      · rw [List.mem_singleton.mp hn] at hWire
        exact .inl (hSources source hWire)

theorem Ready.nodup {order : List Nat} (h : g.Ready order) : order.Nodup := by
  induction h with
  | nil => exact List.nodup_nil
  | snoc _ hNew _ ih => exact ih.append (List.nodup_singleton _) (by simpa using hNew)

/-- Whether a node is an audio output. -/
def isOutput (g : Graph κ) (n : Nat) : Bool :=
  g.nodes[n]?.any fun node => node.kind == "dac~"

theorem isOutput_iff {n : Nat} :
    g.isOutput n = true ↔ ∃ node, g.nodes[n]? = some node ∧ node.kind = "dac~" := by
  rw [isOutput]
  cases g.nodes[n]? with
  | none => simp
  | some node => simp

/-- What an inlet reads depends on the box alone that feeds it. -/
theorem inputsOf_congr {g' : Graph κ} {n : Node κ}
    (h : ∀ slot ∈ n.inlets, ∀ source outlet, slot.feed = .aliased source outlet →
      g'.nodes[source]? = g.nodes[source]?) : g'.inputsOf n = g.inputsOf n := by
  refine Array.map_congr_left fun slot hSlot => ?_
  unfold inputOf
  split
  · rfl
  · rfl
  · rename_i source outlet hFeed
    rw [h slot hSlot source outlet hFeed]

end Graph

namespace Engine

variable {κ : Type} [CustomKind κ] {e e' : Engine κ}

/-- What a box makes of a frame if its inlets read from a graph. -/
def yield (e : Engine κ) (g : Graph κ) (n : Node κ) : Processed (Object κ) :=
  n.object.process e.frameScope (g.inputsOf n) n.outputs

/-- A box after such a frame. -/
def computed (e : Engine κ) (g : Graph κ) (n : Node κ) : Node κ :=
  { n with object := (e.yield g n).state, outputs := (e.yield g n).outputs, stamp := e.frame }

/-- What a node adds to the output in such a frame. -/
def mixesOf (e : Engine κ) (g : Graph κ) (i : Nat) : List Mix :=
  match e.graph.nodes[i]? with
  | none => []
  | some n => (e.yield g n).mixes

theorem computed_congr {g g' : Graph κ} {i : Nat}
    (h : ∀ n, e.graph.nodes[i]? = some n → e.yield g n = e.yield g' n) :
    e.graph.nodes[i]?.map (e.computed g) = e.graph.nodes[i]?.map (e.computed g') := by
  cases hNode : e.graph.nodes[i]? with
  | none => rw [Option.map_none, Option.map_none]
  | some n => rw [Option.map_some, Option.map_some, computed, computed, h n hNode]

theorem mixesOf_congr {g g' : Graph κ} {i : Nat}
    (h : ∀ n, e.graph.nodes[i]? = some n → e.yield g n = e.yield g' n) :
    e.mixesOf g i = e.mixesOf g' i := by
  unfold mixesOf
  cases hNode : e.graph.nodes[i]? with
  | none => rfl
  | some n => simp only [h n hNode]

/-- Compute nodes one after the other. -/
def compute (e : Engine κ) (order : List Nat) : Engine κ :=
  order.foldl processNode e

theorem compute_snoc (e : Engine κ) (order : List Nat) (n : Nat) :
    e.compute (order ++ [n]) = (e.compute order).processNode n := by
  simp [compute]

/-- What it means that exactly the boxes on a list have been computed, each from the buffers as
they are in the end. -/
structure Computed (order : List Nat) (e e' : Engine κ) : Prop where
  rest : ∃ nodes output, e' = { e with graph := { e.graph with nodes }, output }
  on : ∀ i ∈ order, e'.graph.nodes[i]? = e.graph.nodes[i]?.map (e.computed e'.graph)
  off : ∀ i, i ∉ order → e'.graph.nodes[i]? = e.graph.nodes[i]?
  output : e'.output =
    (order.flatMap (e.mixesOf e'.graph)).foldl (mix e.settings.channels) e.output

/-- Computing a box of a built-in kind moves the box and the output, nothing else. -/
theorem processNode_eq (hSound : e.graph.Sound) {i : Nat} {n : Node κ}
    (hNode : e.graph.nodes[i]? = some n) :
    e.processNode i =
      { e with graph := e.graph.modifyNode i fun _ => e.computed e.graph n
               output := (e.yield e.graph n).mixes.foldl (mix e.settings.channels) e.output } := by
  have hBuiltin := (hSound.boxes n (Array.mem_of_getElem? hNode)).builtin
  have hEntries := Object.entries_process e.frameScope (e.graph.inputsOf n) n.outputs hBuiltin
  have hSame : (e.graph.modifyNode i fun m => { m with
        object := (e.yield e.graph n).state, outputs := (e.yield e.graph n).outputs,
        stamp := e.frame }) = e.graph.modifyNode i fun _ => e.computed e.graph n :=
    Graph.modifyNode_congr hNode rfl
  rw [← hSame]
  unfold processNode
  rw [hNode]
  simp only [log, onGraph, hEntries, yield]
  simp

theorem steady_compute (e : Engine κ) (order : List Nat) : e.Steady (e.compute order) := by
  have hChain : Chain Work e (e.compute order) :=
    foldl_chain order (fun e n _ => .single (.process e n)) e
  exact hChain.keeps (p := fun e' : Engine κ => e.Steady e')
    (fun _ _ hWork h => h.trans hWork.steady) (.refl e)

theorem sound_compute (hSound : e.graph.Sound) (order : List Nat) :
    (e.compute order).graph.Sound :=
  hSound.evolves (steady_compute e order).graph

omit [CustomKind κ] in
/-- Boxes whose inlets are fed from elsewhere do not notice that a box has changed. -/
theorem inputsOf_modifyNode (hSound : e.graph.Sound) {g : Graph κ} {order : List Nat} {k : Nat}
    (hNew : k ∉ order) {i : Nat} {n : Node κ} (hNode : e.graph.nodes[i]? = some n)
    (hSources : ∀ source, e.graph.SignalWire source i → source ∈ order) (f : Node κ → Node κ) :
    (g.modifyNode k f).inputsOf n = g.inputsOf n := by
  refine Graph.inputsOf_congr fun slot hSlot source outlet hFeed => ?_
  have hSource := hSources source (hSound.fed i n hNode slot hSlot source outlet hFeed)
  rw [Graph.getElem?_modifyNode, if_neg]
  rintro rfl
  exact hNew hSource

/-- A number that no box has adds nothing to what has been computed. -/
theorem Computed.snoc_absent {e₁ : Engine κ} {order : List Nat} {k : Nat} (h : Computed order e e₁)
    (hNew : k ∉ order) (hNode : e.graph.nodes[k]? = none) :
    Computed (order ++ [k]) e (e₁.processNode k) := by
  have hOff := (h.off k hNew).trans hNode
  have hStay : e₁.processNode k = e₁ := by
    unfold processNode
    rw [hOff]
  rw [hStay]
  refine ⟨h.rest, fun i hi => ?_, fun i hi => ?_, ?_⟩
  · rcases List.mem_append.mp hi with hi | hi
    · exact h.on i hi
    · rw [List.mem_singleton.mp hi, hOff, hNode]
      rfl
  · exact h.off i fun hOrder => hi (List.mem_append_left _ hOrder)
  · rw [h.output, List.flatMap_append, List.flatMap_singleton, mixesOf, hNode, List.append_nil]

/-- Computing a box whose sources have all been computed adds that box. -/
theorem Computed.snoc (hSound : e.graph.Sound) {e₁ : Engine κ} (hSound₁ : e₁.graph.Sound)
    {order : List Nat} {k : Nat} (h : Computed order e e₁) (hReady : e.graph.Ready order)
    (hNew : k ∉ order) (hSources : ∀ source, e.graph.SignalWire source k → source ∈ order)
    {n : Node κ} (hNode : e.graph.nodes[k]? = some n) :
    Computed (order ++ [k]) e (e₁.processNode k) := by
  have hOff := (h.off k hNew).trans hNode
  rw [processNode_eq hSound₁ hOff]
  obtain ⟨nodes, output, rfl⟩ := h.rest
  -- `g₁` is the graph before the last box is computed and `g₂` the one after that.
  let g₁ : Graph κ := { e.graph with nodes }
  let g₂ : Graph κ := g₁.modifyNode k fun _ => e.computed g₁ n
  have hYield : ∀ i ∈ order ++ [k], ∀ m, e.graph.nodes[i]? = some m →
      e.yield g₂ m = e.yield g₁ m := by
    intro i hi m hm
    have hInputs : g₂.inputsOf m = g₁.inputsOf m := by
      refine inputsOf_modifyNode hSound hNew hm (fun source hWire => ?_) _
      rcases List.mem_append.mp hi with hi | hi
      · exact hReady.sources i hi source hWire
      · exact hSources source (List.mem_singleton.mp hi ▸ hWire)
    rw [yield, yield, hInputs]
  refine ⟨⟨_, _, rfl⟩, fun i hi => ?_, fun i hi => ?_, ?_⟩
  · show g₂.nodes[i]? = e.graph.nodes[i]?.map (e.computed g₂)
    rw [computed_congr (hYield i hi), Graph.getElem?_modifyNode]
    by_cases hEq : k = i
    · subst hEq
      rw [if_pos rfl, hOff, hNode]
      rfl
    · rw [if_neg hEq]
      rcases List.mem_append.mp hi with hi | hi
      · exact h.on i hi
      · exact absurd (List.mem_singleton.mp hi).symm hEq
  · show g₂.nodes[i]? = e.graph.nodes[i]?
    rw [List.mem_append, List.mem_singleton, not_or] at hi
    rw [Graph.getElem?_modifyNode, if_neg (Ne.symm hi.2)]
    exact h.off i hi.1
  · show (e.yield g₁ n).mixes.foldl (mix e.settings.channels) output =
      ((order ++ [k]).flatMap (e.mixesOf g₂)).foldl (mix e.settings.channels) e.output
    have hOutput : output = _ := h.output
    rw [List.flatMap_congr fun i hi => mixesOf_congr (hYield i hi), List.flatMap_append,
      List.foldl_append, List.flatMap_singleton, hOutput, mixesOf, hNode]

/-- **Computing a ready list computes each of its boxes once, from the final buffers.** -/
theorem computed_compute (hSound : e.graph.Sound) {order : List Nat}
    (hReady : e.graph.Ready order) : Computed order e (e.compute order) := by
  induction hReady with
  | nil => exact ⟨⟨_, _, rfl⟩, by simp, fun _ _ => rfl, rfl⟩
  | snoc hReady hNew hSources ih =>
      rename_i order k
      rw [compute_snoc]
      cases hNode : e.graph.nodes[k]? with
      | none => exact ih.snoc_absent hNew hNode
      | some n =>
          exact ih.snoc hSound (sound_compute hSound order) hReady hNew hSources hNode

/-! ### The order does not matter -/

/-- Boxes that have been computed from the same buffers come out alike, by rank. -/
theorem Computed.nodes_eq (hSound : e.graph.Sound) {first second : List Nat} {e₁ e₂ : Engine κ}
    (h₁ : Computed first e e₁) (h₂ : Computed second e e₂)
    (hMem : ∀ n, n ∈ first ↔ n ∈ second) :
    e₁.graph.nodes = e₂.graph.nodes := by
  obtain ⟨rank, hRank⟩ := hSound.ranked
  have hNodes : ∀ r i, rank i < r → e₁.graph.nodes[i]? = e₂.graph.nodes[i]? := by
    intro r
    induction r with
    | zero => intro i hi; omega
    | succ r ih =>
        intro i hi
        by_cases hOn : i ∈ first
        · rw [h₁.on i hOn, h₂.on i ((hMem i).mp hOn)]
          refine computed_congr fun n hNode => ?_
          have hInputs : e₁.graph.inputsOf n = e₂.graph.inputsOf n := by
            refine Graph.inputsOf_congr fun slot hSlot source outlet hFeed => ?_
            have hLess := hRank.1 _ _ (hSound.fed i n hNode slot hSlot source outlet hFeed)
            exact ih source (by omega)
          rw [yield, yield, hInputs]
        · rw [h₁.off i hOn, h₂.off i fun hSecond => hOn ((hMem i).mpr hSecond)]
  exact Array.ext_getElem? fun i => hNodes (rank i + 1) i (Nat.lt_succ_self _)

omit [CustomKind κ] in
/-- Mixing passes over what adds nothing. -/
theorem flatMap_filter {α β : Type} {p : α → Bool} {f : α → List β}
    (h : ∀ a, p a = false → f a = []) (l : List α) : (l.filter p).flatMap f = l.flatMap f := by
  induction l with
  | nil => rfl
  | cons a l ih =>
      cases hp : p a with
      | true => rw [List.filter_cons_of_pos hp, List.flatMap_cons, List.flatMap_cons, ih]
      | false => simp [hp, h a hp, ih]

/-- Of the built-in kinds only `dac~` adds to the output. -/
theorem mixesOf_eq_nil (hSound : e.graph.Sound) (g : Graph κ) {i : Nat}
    (h : e.graph.isOutput i = false) : e.mixesOf g i = [] := by
  unfold mixesOf
  split
  · rfl
  · rename_i n hNode
    have hProper := hSound.boxes n (Array.mem_of_getElem? hNode)
    refine Object.mixes_process _ _ _ hProper.builtin ?_
    rw [Graph.isOutput, hNode] at h
    cases hOutput : n.object.isOutput with
    | false => rfl
    | true => simp [hProper.output.mp hOutput] at h

/-- **Ready lists of the same boxes come to the same**, if they have the outputs in one order. -/
theorem compute_congr (hSound : e.graph.Sound) {first second : List Nat}
    (hFirst : e.graph.Ready first) (hSecond : e.graph.Ready second)
    (hMem : ∀ n, n ∈ first ↔ n ∈ second)
    (hOutputs : first.filter e.graph.isOutput = second.filter e.graph.isOutput) :
    e.compute first = e.compute second := by
  have h₁ := computed_compute hSound hFirst
  have h₂ := computed_compute hSound hSecond
  generalize e.compute first = e₁ at h₁ ⊢
  generalize e.compute second = e₂ at h₂ ⊢
  have hNodes := h₁.nodes_eq hSound h₂ hMem
  have hMixes : ∀ i, e.mixesOf e₁.graph i = e.mixesOf e₂.graph i := by
    intro i
    refine mixesOf_congr fun n hNode => ?_
    have hInputs : e₁.graph.inputsOf n = e₂.graph.inputsOf n :=
      Graph.inputsOf_congr fun slot _ source outlet _ => by rw [hNodes]
    rw [yield, yield, hInputs]
  have hOutput : e₁.output = e₂.output := by
    rw [h₁.output, h₂.output, ← flatMap_filter fun i => mixesOf_eq_nil hSound e₁.graph,
      ← flatMap_filter fun i => mixesOf_eq_nil hSound e₂.graph, hOutputs,
      List.flatMap_congr fun i _ => hMixes i]
  obtain ⟨nodes₁, output₁, rfl⟩ := h₁.rest
  obtain ⟨nodes₂, output₂, rfl⟩ := h₂.rest
  simp only at hNodes hOutput
  rw [hNodes, hOutput]

end Engine

end Patchbay
