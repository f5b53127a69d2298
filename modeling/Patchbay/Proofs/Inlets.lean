import Patchbay.Proofs.Connect
import Patchbay.Proofs.Loading

/-
What the inlets of a running patch read.

Three things have a say in it: the wires, the first argument of a box, and messages.  The
wires come first.  An inlet that a signal wire feeds reads what the wire brings, for good, and
neither arguments nor messages move it.  A signal inlet without one holds a constant, and
the last number that a message has brought to it is what it holds; a box may have given it
its first argument before that, and otherwise it holds zero.  A message inlet reads as silence.

The messages are those in the story of the run.  What the depth limit drops is not in it,
and what is sent to a box by name arrives at no inlet.  So the invariant is about one slot and
the numbers that the story has brought to it, and of all changes only a call moves either.
-/

namespace Patchbay

/-! ### Numbers that a story brings -/

section Numbers

variable {κ : Type}

/-- The number that a happening brings to an inlet. -/
def Happening.numberAt? (node inlet : Nat) : Happening κ → Option Float32
  | .called c => if c.node = node ∧ c.arrival = .inlet inlet then c.message.leadingNumber? else none
  | _ => none

/-- The last number that a story brings to an inlet. -/
def lastNumber? (story : List (Happening κ)) (node inlet : Nat) : Option Float32 :=
  (story.filterMap fun h => h.numberAt? node inlet).getLast?

theorem lastNumber?_append (story told : List (Happening κ)) (node inlet : Nat) :
    lastNumber? (story ++ told) node inlet =
      (lastNumber? told node inlet).or (lastNumber? story node inlet) := by
  rw [lastNumber?, List.filterMap_append, List.getLast?_append]
  rfl

theorem lastNumber?_singleton (h : Happening κ) (node inlet : Nat) :
    lastNumber? [h] node inlet = h.numberAt? node inlet := by
  cases hNumber : h.numberAt? node inlet <;> simp [lastNumber?, hNumber]

end Numbers

/-! ### One slot -/

/-- What feeds an inlet once the graph has been set up, if this is the constant that the inlet
holds in case no signal wire leads to it. -/
def Graph.feedAt {κ : Type} (g : Graph κ) (node inlet : Nat) (rate : Rate) (value : Float32) : Feed :=
  match rate with
  | .message => .unresolved
  | .signal =>
    match g.signalSource? node inlet with
    | some (source, outlet) => .aliased source outlet
    | none => .constant value

namespace InletSlot

variable {κ : Type} {g : Graph κ} {node inlet : Nat} {rate : Rate} {old value : Float32}
  {s : InletSlot}

/-- Where the inlet holds no constant, there is nothing to say about it. -/
theorem feedAt_eq_of_not_constant (hFeed : s.feed = g.feedAt node inlet rate old)
    (hNot : s.holdsConstant = false) (value : Float32) :
    s.feed = g.feedAt node inlet rate value := by
  rw [holdsConstant, hFeed] at hNot
  rw [hFeed]
  unfold Graph.feedAt at hNot ⊢
  cases rate with
  | message => rfl
  | signal =>
      cases hSource : g.signalSource? node inlet with
      | some source => rfl
      | none => simp [hSource] at hNot

theorem feed_setConstant (hFeed : s.feed = g.feedAt node inlet rate old) (value : Float32) :
    (s.setConstant value).feed = g.feedAt node inlet rate value := by
  unfold setConstant
  split
  · rename_i held hHeld
    rw [hHeld] at hFeed
    unfold Graph.feedAt at hFeed ⊢
    cases rate with
    | message => simp at hFeed
    | signal =>
        cases hSource : g.signalSource? node inlet with
        | some source => simp [hSource] at hFeed
        | none => rfl
  · rename_i hNot
    refine feedAt_eq_of_not_constant hFeed ?_ value
    unfold holdsConstant
    split
    · rename_i held hHeld
      exact absurd hHeld (hNot held)
    · rfl

/-- An inlet whose constant has an observer takes over the number that a message leads with. -/
theorem feed_observed (hFeed : s.feed = g.feedAt node inlet rate old)
    (hListens : s.holdsConstant = true → s.observers ≠ []) {m : Message}
    (hNumber : m.leadingNumber? = some value) :
    (s.observed m).feed = g.feedAt node inlet rate value := by
  unfold observed
  rw [hNumber]
  cases hObservers : s.observers with
  | nil =>
      refine feedAt_eq_of_not_constant hFeed ?_ value
      rw [← Bool.not_eq_true]
      exact fun hHolds => hListens hHolds hObservers
  | cons o observers =>
      -- The first observer sets the constant, and the others set it to the same value.
      exact List.foldlRecOn (motive := fun s : InletSlot => s.feed = g.feedAt node inlet rate value)
        observers _ (feed_setConstant hFeed value) fun s hSet _ _ => feed_setConstant hSet value

end InletSlot

/-- A slot is as the wires, its seed and the numbers of a story have made it. -/
structure Follows {κ : Type} (g : Graph κ) (story : List (Happening κ)) (node inlet : Nat)
    (seed : Option Float32) (slot : InletSlot) : Prop where
  feed : slot.feed =
    g.feedAt node inlet slot.rate ((lastNumber? story node inlet).getD (seed.getD 0))
  /-- What holds a constant listens to messages. -/
  listens : slot.holdsConstant = true → slot.observers ≠ []

namespace Follows

variable {κ : Type} {g : Graph κ} {story told : List (Happening κ)} {node inlet : Nat}
  {seed : Option Float32} {slot : InletSlot}

/-- What resolving an inlet and seeding it leaves. -/
theorem resolved {unfed : InletSlot} (hUnfed : unfed.feed = .unresolved) :
    Follows g ([] : List (Happening κ)) node inlet seed
      (seed.elim (g.resolveInlet node inlet unfed)
        (g.resolveInlet node inlet unfed).setConstant) := by
  have hResolved : Follows g ([] : List (Happening κ)) node inlet none
      (g.resolveInlet node inlet unfed) := by
    unfold Graph.resolveInlet
    cases hRate : unfed.rate with
    | message =>
        refine ⟨by rw [hRate]; exact hUnfed, fun hHolds => ?_⟩
        simp [InletSlot.holdsConstant, hUnfed] at hHolds
    | signal =>
        cases hSource : g.signalSource? node inlet with
        | some source =>
            refine ⟨?_, fun hHolds => ?_⟩
            · simp only [Graph.feedAt, hSource]
            · simp [InletSlot.holdsConstant] at hHolds
        | none =>
            refine ⟨?_, fun _ => by simp⟩
            simp [Graph.feedAt, hSource, lastNumber?]
  cases seed with
  | none => exact hResolved
  | some value =>
      have hEvolves := (g.resolveInlet node inlet unfed).evolves_setConstant value
      refine ⟨?_, fun hHolds => ?_⟩
      · rw [Option.elim_some, hEvolves.rate]
        exact InletSlot.feed_setConstant hResolved.feed value
      · rw [Option.elim_some, hEvolves.observers]
        refine hResolved.listens ?_
        rcases hEvolves.feed with hSame | ⟨hBefore, -⟩
        · rw [Option.elim_some, InletSlot.holdsConstant, hSame] at hHolds
          exact hHolds
        · exact hBefore

/-- What brings the inlet no number leaves it as it is. -/
theorem append (h : Follows g story node inlet seed slot)
    (hNone : lastNumber? told node inlet = none) :
    Follows g (story ++ told) node inlet seed slot := by
  refine ⟨?_, h.listens⟩
  rw [lastNumber?_append, hNone, Option.none_or]
  exact h.feed

/-- A call at the inlet. -/
theorem call (h : Follows g story node inlet seed slot) (m : Message) :
    Follows g (story ++ [.called ⟨node, .inlet inlet, m⟩]) node inlet seed (slot.observed m) := by
  have hEvolves := slot.evolves_observed m
  have hTold : lastNumber? [(.called ⟨node, .inlet inlet, m⟩ : Happening κ)] node inlet =
      m.leadingNumber? := by
    rw [lastNumber?_singleton]
    simp [Happening.numberAt?]
  cases hNumber : m.leadingNumber? with
  | none =>
      have hSame : slot.observed m = slot := by rw [InletSlot.observed, hNumber]
      rw [hSame]
      exact h.append (hTold.trans hNumber)
  | some value =>
      refine ⟨?_, fun hHolds => ?_⟩
      · rw [lastNumber?_append, hTold, hNumber, hEvolves.rate]
        exact InletSlot.feed_observed h.feed h.listens hNumber
      · rw [hEvolves.observers]
        refine h.listens ?_
        rcases hEvolves.feed with hSame | ⟨hBefore, -⟩
        · rwa [InletSlot.holdsConstant, hSame] at hHolds
        · exact hBefore

end Follows

/-! ### All slots -/

/-- Every slot of a graph is as the story has made it since the graph was `g`. -/
def Graph.Heeds {κ : Type} (g : Graph κ) (story : List (Happening κ)) (g' : Graph κ) : Prop :=
  ∀ (i : Nat) (n : Node κ), g'.nodes[i]? = some n → ∀ (k : Nat) (slot : InletSlot),
    n.inlets[k]? = some slot → Follows g story i k (n.seed? k) slot

namespace Graph.Heeds

variable {κ : Type} {g g' : Graph κ} {story told : List (Happening κ)}

/-- What brings no inlet a number leaves them all as they are. -/
theorem append (h : g.Heeds story g') (hNone : ∀ i k, lastNumber? told i k = none) :
    g.Heeds (story ++ told) g' :=
  fun i n hNode k slot hSlot => (h i n hNode k slot hSlot).append (hNone i k)

/-- A change of one box that leaves its inlets alone. -/
theorem modifyNode (h : g.Heeds story g') (node : Nat) {f : Node κ → Node κ}
    (hSame : ∀ n, (f n).kind = n.kind ∧ (f n).args = n.args ∧ (f n).inlets = n.inlets) :
    g.Heeds story (g'.modifyNode node f) := by
  intro i n hNode k slot hSlot
  rw [getElem?_modifyNode] at hNode
  split at hNode
  · obtain ⟨m, hm, rfl⟩ := Option.map_eq_some_iff.mp hNode
    obtain ⟨hKind, hArgs, hInlets⟩ := hSame m
    rw [hInlets] at hSlot
    have hSeed : (f m).seed? k = m.seed? k := by rw [Node.seed?, Node.seed?, hKind, hArgs]
    rw [hSeed]
    exact h i m hm k slot hSlot
  · exact h i n hNode k slot hSlot

/-- A message at an inlet. -/
theorem observe (h : g.Heeds story g') (node inlet : Nat) (m : Message) :
    g.Heeds (story ++ [.called ⟨node, .inlet inlet, m⟩]) (g'.observe node inlet m) := by
  have hElse : ∀ i k, ¬ (node = i ∧ inlet = k) →
      lastNumber? [(.called ⟨node, .inlet inlet, m⟩ : Happening κ)] i k = none := by
    intro i k hNot
    rw [lastNumber?_singleton]
    simp only [Happening.numberAt?, Arrival.inlet.injEq, if_neg hNot]
  rw [observe_eq]
  intro i n hNode k slot hSlot
  rw [getElem?_modifyNode] at hNode
  split at hNode
  · rename_i hi
    subst hi
    obtain ⟨n, hn, rfl⟩ := Option.map_eq_some_iff.mp hNode
    simp only [Array.getElem?_modify] at hSlot
    change Follows g _ node k (n.seed? k) slot
    split at hSlot
    · rename_i hk
      subst hk
      obtain ⟨slot, hs, rfl⟩ := Option.map_eq_some_iff.mp hSlot
      exact (h node n hn inlet slot hs).call m
    · rename_i hk
      exact (h node n hn k slot hSlot).append (hElse node k fun hBoth => hk hBoth.2)
  · rename_i hi
    exact (h i n hNode k slot hSlot).append (hElse i k fun hBoth => hi hBoth.1)

end Graph.Heeds

namespace Engine

variable {κ : Type} [CustomKind κ] {e e' : Engine κ} {g : Graph κ}
  {story told : List (Happening κ)}

theorem heeds_processNode (h : g.Heeds story e.graph) (node : Nat) :
    g.Heeds story (e.processNode node).graph := by
  unfold processNode
  split
  · exact h
  · exact h.modifyNode node fun _ => ⟨rfl, rfl, rfl⟩

theorem heeds_handle (h : g.Heeds story e.graph) (node : Nat) (arrival : Arrival) (m : Message)
    (hNode : node < e.graph.size) :
    g.Heeds (story ++ [.called ⟨node, arrival, m⟩]) (e.handle node arrival m).2.graph := by
  have hThere : e.graph.nodes[node]? = some e.graph.nodes[node] := Array.getElem?_eq_getElem hNode
  unfold handle
  rw [hThere]
  cases arrival with
  | inlet inlet => exact (h.observe node inlet m).modifyNode node fun _ => ⟨rfl, rfl, rfl⟩
  | external =>
      refine Graph.Heeds.modifyNode (h.append fun i k => ?_) node fun _ => ⟨rfl, rfl, rfl⟩
      rw [lastNumber?_singleton]
      simp [Happening.numberAt?]

/-- **Every change leaves the slots as the story says.** -/
theorem Beat.heeds (hBeat : Beat e told e') (h : g.Heeds story e.graph) :
    g.Heeds (story ++ told) e'.graph := by
  cases hBeat with
  | calm hCalm =>
      rw [List.append_nil]
      cases hCalm with
      | process node => exact heeds_processNode h node
      | note journal => exact h
      | drive state overflow sink => exact h
      | silence => exact h
      | endFrame => exact h
  | call node arrival m hNode => exact heeds_handle h node arrival m hNode
  | schedule due action => exact h.append fun i k => lastNumber?_singleton _ i k
  | beginFrame => exact h.append fun i k => lastNumber?_singleton _ i k

theorem Tale.heeds (hTale : Tale e told e') (h : g.Heeds story e.graph) :
    g.Heeds (story ++ told) e'.graph := by
  induction hTale with
  | nil => rwa [List.append_nil]
  | snoc _ hBeat ih =>
      rw [← List.append_assoc]
      exact hBeat.heeds ih

/-! ### From the load on -/

/-- A load that succeeds leaves every slot resolved and seeded. -/
theorem heeds_load {source : String} (hRegistry : e.registry = .builtin) (hGraph : e.graph = .empty)
    (hLoad : e.load source = (.ok (), e')) : e'.graph.Heeds [] e'.graph := by
  intro i n hNode k slot hSlot
  obtain ⟨unfed, hUnfed, rfl⟩ := inlets_load hRegistry hGraph hLoad hNode hSlot
  exact .resolved hUnfed

/-- What an inlet reads, as the wires and the story since the load have it. -/
structure Reads (e : Engine κ) (story : List (Happening κ)) (node inlet : Nat) (n : Node κ)
    (slot : InletSlot) : Prop where
  wired : slot.rate = .signal → ∀ w ∈ e.graph.wires, w.feeds node inlet = true →
    slot.feed = .aliased w.source w.outlet
  /-- The last number that was brought to the inlet, or else the seed, or else zero. -/
  held : slot.rate = .signal → (∀ w ∈ e.graph.wires, w.feeds node inlet = false) →
    slot.feed = .constant ((lastNumber? story node inlet).getD ((n.seed? inlet).getD 0))
  silent : slot.rate = .message → e.graph.inputOf slot = .silent

omit [CustomKind κ] in
/-- With at most one wire into each inlet, a slot that follows the story reads as it should. -/
theorem reads_of_follows (hExclusive : e.graph.Exclusive)
    (hPerm : e.graph.recent.Perm e.graph.wires) (hRecent : e.graph.recent = g.recent)
    {node inlet : Nat} {n : Node κ} {slot : InletSlot}
    (h : Follows g story node inlet (n.seed? inlet) slot) : e.Reads story node inlet n slot := by
  have hSource : g.signalSource? node inlet = e.graph.signalSource? node inlet := by
    rw [Graph.signalSource?, Graph.signalSource?, Graph.wireInto?, Graph.wireInto?, hRecent]
  have hFeed := h.feed
  unfold Graph.feedAt at hFeed
  rw [hSource] at hFeed
  refine ⟨fun hRate w hw hFeeds => ?_, fun hRate hNone => ?_, fun hRate => ?_⟩
  · have hFound : e.graph.wireInto? node inlet = some w := by
      rw [Graph.wireInto?_eq, Graph.wireAt?_eq_some_iff hExclusive]
      exact ⟨hPerm.mem_iff.mpr hw, Wire.feeds_iff.mp hFeeds⟩
    rw [hRate, Graph.signalSource?, hFound] at hFeed
    exact hFeed
  · have hNotFound : e.graph.wireInto? node inlet = none :=
      List.find?_eq_none.mpr fun w hw => by simp [hNone w (hPerm.mem_iff.mp hw)]
    rw [hRate, Graph.signalSource?, hNotFound] at hFeed
    exact hFeed
  · rw [hRate] at hFeed
    rw [Graph.inputOf, hFeed]

/-- No two wires of a loaded patch compete. -/
theorem exclusive_load {source : String} (hGraph : e.graph = .empty)
    (hLoad : e.load source = (.ok (), e')) : e'.graph.Exclusive := by
  obtain ⟨resolved, entry, -, hSetup, rfl⟩ := load_ok hLoad
  have hRecent : (e.resolvedBy source resolved).initNodes.graph.recent =
      (e.build (Patch.read source)).graph.recent := by
    rw [(dresses_initNodes _).graph.recent, (Graph.setup_eq_ok hSetup).2]
    rfl
  change ((e.resolvedBy source resolved).initNodes.graph.recent.map Wire.key).Nodup
  rw [hRecent]
  exact (built_build hGraph _).exclusive

/--
**What the inlets of a running patch read.**  After a load with the built-in kinds, whatever
is done then, the boxes keep their kinds, their slots and their wires.  A signal inlet that a
wire leads to reads that wire; one without a wire holds the last number that the run since
the load has brought to it, or else its seed, or else zero; and a message inlet is silent.
-/
theorem inlets_follow_story {settings : Settings} {before after : List (Happening κ)}
    {e₀ e₁ e : Engine κ} {source : String} (hBefore : Run (.new settings .builtin) before e₀)
    (hLoad : e₀.load source = (.ok (), e₁)) (hAfter : Run e₁ after e) :
    e₁.graph.Evolves e.graph ∧
      ∀ (i : Nat) (n : Node κ), e.graph.nodes[i]? = some n →
        ∀ (k : Nat) (slot : InletSlot), n.inlets[k]? = some slot → e.Reads after i k n slot := by
  have hLive₀ : e₀.Live := hBefore.tale.live (.new settings)
  have hGraph := hLive₀.empty_of_load hLoad
  have hSteady := hAfter.tale.steady
  have hLive : e.Live := hAfter.tale.live (hLive₀.load hLoad)
  have hHeeds : e₁.graph.Heeds after e.graph :=
    hAfter.tale.heeds (heeds_load hLive₀.sound.registry hGraph hLoad)
  have hExclusive : e.graph.Exclusive := by
    rw [Graph.Exclusive, hSteady.graph.recent]
    exact exclusive_load hGraph hLoad
  refine ⟨hSteady.graph, fun i n hNode k slot hSlot => ?_⟩
  exact reads_of_follows hExclusive hLive.sound.graph.wired.recentPerm hSteady.graph.recent
    (hHeeds i n hNode k slot hSlot)

theorem inlets_follow_story_chime :
    ∃ n slot, (chime.perform (.render 1)).2.graph.nodes[0]? = some n ∧ n.kind = "osc~" ∧
      n.inlets[0]? = some slot ∧ slot.feed = .constant 7 := by
  obtain ⟨hEvolves, hReads⟩ :=
    inlets_follow_story .start load_chime (.perform .start (.render 1))
  have hChime : (chime.graph.nodes[0]?.any fun n => n.kind == "osc~" &&
      n.inlets[0]?.any fun slot => slot.rate == .signal) = true ∧
      (∀ w ∈ chime.graph.wires, w.feeds 0 0 = false) ∧
      lastNumber? (chime.story (.render 1)) 0 0 = some 7 := by
    decide +kernel
  obtain ⟨hBox, hUnwired, hNumber⟩ := hChime
  obtain ⟨n, hNode, hBox⟩ := (Option.any_eq_true _ _).mp hBox
  obtain ⟨hKind, hSlot⟩ := Bool.and_eq_true_iff.mp hBox
  obtain ⟨slot, hSlot, hRate⟩ := (Option.any_eq_true _ _).mp hSlot
  obtain ⟨n', slot', hNode', hSlot', hBoxEvolves, hSlotEvolves⟩ := hEvolves.slotAfter hNode hSlot
  rw [← hEvolves.wires] at hUnwired
  have hHeld := (hReads 0 n' hNode' 0 slot' hSlot').held
    (hSlotEvolves.rate.trans (beq_iff_eq.mp hRate)) hUnwired
  rw [List.nil_append, hNumber] at hHeld
  exact ⟨n', slot', hNode', hBoxEvolves.kind.trans (beq_iff_eq.mp hKind), hSlot', hHeld⟩

end Engine

end Patchbay
