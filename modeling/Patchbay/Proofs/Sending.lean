import Patchbay.Proofs.Duties
import Patchbay.Proofs.Firing
import Patchbay.Proofs.Lineage

/-
Where a box sends.

A box sends out of outlets that it names by number, and nothing in the delivery of a message
checks the number: one that the box does not have leads nowhere, and the message is lost
without a complaint.  What keeps the built-in kinds from that is different from kind to kind.
Most have one outlet and name it.  The others get an outlet for each argument, and later find
the number of the outlet in a list of their own, so it matters that the list keeps its length
through everything that happens to the box.

`voices` is the length of that list, or the number of outlets that the kind names: how many
outlets, from the left, an object may send out of.  No hook changes it, what goes out stays
below it, and the slots that a kind lays out from its arguments have a message outlet for
every one of them.
-/

namespace Patchbay

/-! ### What goes out -/

/-- Whatever goes out of an outlet goes out of one of the first `n`. -/
def SendsBelow (n : Nat) (reactions : List Reaction) : Prop :=
  ∀ k m, .outlet k m ∈ sent reactions → k < n

section Sent

variable {n : Nat} {l l' : List Reaction}

@[simp] theorem sendsBelow_nil : SendsBelow n [] := fun _ _ h => absurd h List.not_mem_nil

@[simp] theorem sendsBelow_emitOn {k : Nat} {m : Message} :
    SendsBelow n (emitOn k m :: l) ↔ k < n ∧ SendsBelow n l := by
  constructor
  · intro h
    exact ⟨h k m List.mem_cons_self, fun j out hOut => h j out (List.mem_cons_of_mem _ hOut)⟩
  · rintro ⟨hFirst, hRest⟩ j out hOut
    rcases List.mem_cons.mp hOut with hHead | hTail
    · obtain ⟨rfl, -⟩ := Emission.outlet.inj hHead
      exact hFirst
    · exact hRest j out hTail

@[simp] theorem sendsBelow_mismatch {scope : MessageScope} {expected : String} {got : Message} :
    SendsBelow n (scope.mismatch expected got :: l) ↔ SendsBelow n l := Iff.rfl

@[simp] theorem sendsBelow_report {scope : MessageScope} {e : Error} :
    SendsBelow n (scope.report e :: l) ↔ SendsBelow n l := Iff.rfl

@[simp] theorem sendsBelow_record {entry : Entry} :
    SendsBelow n (.record entry :: l) ↔ SendsBelow n l := Iff.rfl

/-- What only takes a number in sends nothing. -/
@[simp] theorem sendsBelow_takeNumber {σ : Type} {scope : MessageScope} {m : Message} {s : σ}
    {take : Float32 → σ} : SendsBelow n (takeNumber scope m s take).2 := by
  unfold takeNumber
  split <;> simp

/-- A row of reactions that are looked at one by one. -/
theorem sendsBelow_of_forall (h : ∀ r ∈ l, SendsBelow n [r]) : SendsBelow n l := by
  intro k m hm
  obtain ⟨r, hr, hEmission⟩ := List.mem_filterMap.mp hm
  exact h r hr k m (List.mem_filterMap.mpr ⟨r, List.mem_singleton.mpr rfl, hEmission⟩)

theorem sendsBelow_map {α : Type} {f : α → Reaction} {as : List α}
    (h : ∀ a ∈ as, SendsBelow n [f a]) : SendsBelow n (as.map f) :=
  sendsBelow_of_forall (List.forall_mem_map.mpr h)

end Sent

/-! ### Kind by kind -/

section Kinds

variable (scope : MessageScope) (arrival : Arrival) (m : Message)

theorem Osc.sendsBelow (s : Osc) : SendsBelow 0 (s.onMessage scope arrival m).2 := by
  unfold Osc.onMessage
  split <;> simp

theorem Phasor.sendsBelow (s : Phasor) : SendsBelow 0 (s.onMessage scope arrival m).2 := by
  unfold Phasor.onMessage
  split <;> simp

theorem TableReader.sendsBelow (s : TableReader) :
    SendsBelow 0 (s.onMessage scope arrival m).2 := by
  unfold TableReader.onMessage
  split
  · split
    · dsimp only
      split <;> simp
    · simp
    · simp
  · simp

theorem Ramp.sendsBelow (s : Ramp) : SendsBelow 0 (s.onMessage scope arrival m).2 := by
  unfold Ramp.onMessage
  split
  · split
    · split <;> simp
    · simp
    · split <;> simp
  · simp
  · simp

theorem sendsBelow_bangFor : SendsBelow 1 (bangFor arrival) := by
  unfold bangFor
  split <;> simp

theorem MessageBox.sendsBelow (s : MessageBox) : SendsBelow 1 (s.onMessage scope arrival m).2 := by
  unfold MessageBox.onMessage
  split
  · split
    · simp
    · obtain ⟨plan, hPlan⟩ := exists_plan (BoxText.tokenize s.text)
      have hFires : Fires m.elements plan (sent (fire scope m s.text)) := fires_fire hPlan
      intro k out hOut
      obtain rfl := hFires.laidOut.outlet hOut
      exact Nat.one_pos
  · simp

theorem Receive.sendsBelow (s : Receive) : SendsBelow 1 (s.onMessage arrival m).2 := by
  unfold Receive.onMessage
  split <;> simp

theorem Binop.sendsBelow (s : Binop) : SendsBelow 1 (s.onMessage scope arrival m).2 := by
  unfold Binop.onMessage Binop.result
  split
  · split
    · simp
    · split <;> simp
  · simp
  · simp

theorem FloatBox.sendsBelow (s : FloatBox) : SendsBelow 1 (s.onMessage scope arrival m).2 := by
  unfold FloatBox.onMessage FloatBox.result
  split
  · split
    · simp
    · split <;> simp
  · simp
  · simp

theorem Toggle.sendsBelow (s : Toggle) : SendsBelow 1 (s.onMessage scope arrival m).2 := by
  unfold Toggle.onMessage Toggle.set
  split
  · split
    · simp
    · split <;> simp
  · simp

theorem RandomBox.sendsBelow (s : RandomBox) : SendsBelow 1 (s.onMessage scope arrival m).2 := by
  unfold RandomBox.onMessage
  split
  · split <;> simp
  · simp
  · simp

theorem Spigot.sendsBelow (s : Spigot) : SendsBelow 1 (s.onMessage scope arrival m).2 := by
  unfold Spigot.onMessage
  split
  · dsimp only
    split <;> simp
  · simp
  · simp

theorem Moses.sendsBelow (s : Moses) : SendsBelow 2 (s.onMessage scope arrival m).2 := by
  unfold Moses.onMessage
  split
  · simp
  · split
    · dsimp only
      split <;> simp
    · simp
    · simp

theorem Swap.sendsBelow (s : Swap) : SendsBelow 2 (s.onMessage scope arrival m).2 := by
  unfold Swap.onMessage Swap.result
  split
  · split
    · simp
    · split <;> simp
  · simp
  · simp

theorem Change.sendsBelow (s : Change) : SendsBelow 1 (s.onMessage scope arrival m).2 := by
  unfold Change.onMessage
  split
  · split
    · split <;> simp
    · simp
    · split
      · exact sendsBelow_map fun x _ => by simp
      · simp
  · simp

/-- The number of a match is that of an argument, and what matches none goes out behind them. -/
theorem Select.sendsBelow (s : Select) :
    SendsBelow (s.cases.length + 1) (s.onMessage scope arrival m).2 := by
  unfold Select.onMessage
  split
  · split
    · rename_i k hMatch
      obtain ⟨a, -, hFound⟩ := Option.bind_eq_some_iff.mp hMatch
      obtain ⟨hLess, -⟩ := List.findIdx?_eq_some_iff_getElem.mp hFound
      exact sendsBelow_emitOn.mpr ⟨Nat.lt_succ_of_lt hLess, sendsBelow_nil⟩
    · simp
  · split
    · split <;> simp
    · simp
  · simp

/-- The list of matches keeps its length: it is replaced only by one of the same length. -/
theorem Select.length_cases (s : Select) :
    (s.onMessage scope arrival m).1.cases.length = s.cases.length := by
  unfold Select.onMessage
  split
  · split <;> rfl
  · split
    · rename_i hOne
      split
      · exact hOne.symm
      · rfl
    · rfl
  · rfl

/-- An outlet's conversion sends out of that outlet, if the message can be converted. -/
theorem Trigger.sendsBelow (s : Trigger) :
    SendsBelow s.conversions.length (s.onMessage scope arrival m).2 := by
  unfold Trigger.onMessage
  split
  · refine sendsBelow_map fun ⟨c, outlet⟩ hPlace => ?_
    have hLess := List.snd_lt_of_mem_zipIdx (List.mem_reverse.mp hPlace)
    simp only [Trigger.fireOutlet]
    split
    · exact sendsBelow_emitOn.mpr ⟨hLess, sendsBelow_nil⟩
    · simp
  · simp

theorem Trigger.conversions_onMessage (s : Trigger) :
    (s.onMessage scope arrival m).1.conversions = s.conversions := by
  unfold Trigger.onMessage
  split <;> rfl

/-- Atoms past the last slot have no outlet, and are not looked at. -/
theorem Unpack.sendsBelow (s : Unpack) :
    SendsBelow s.slots.length (s.onMessage scope arrival m).2 := by
  unfold Unpack.onMessage
  split
  · refine sendsBelow_map fun ⟨⟨t, a⟩, outlet⟩ hPlace => ?_
    have hLess := List.snd_lt_of_mem_zipIdx (List.mem_reverse.mp hPlace)
    rw [List.length_zip] at hLess
    have hOutlet : outlet < s.slots.length := Nat.lt_of_lt_of_le hLess (Nat.min_le_left _ _)
    simp only [Unpack.fireOutlet]
    split
    · exact sendsBelow_emitOn.mpr ⟨hOutlet, sendsBelow_nil⟩
    · exact sendsBelow_emitOn.mpr ⟨hOutlet, sendsBelow_nil⟩
    · simp
  · simp

theorem Unpack.slots_onMessage (s : Unpack) :
    (s.onMessage scope arrival m).1.slots = s.slots := by
  unfold Unpack.onMessage
  split <;> rfl

theorem Pack.sendsBelow (s : Pack) : SendsBelow 1 (s.onMessage scope arrival m).2 := by
  have hCollected : ∀ s : Pack, SendsBelow 1 [emitOn 0 s.collected] := by simp
  have hReject : ∀ slot a, SendsBelow 1 [Pack.reject scope slot a] := by simp [Pack.reject]
  unfold Pack.onMessage
  split
  · simp
  · split
    · exact hCollected s
    · split
      · unfold Pack.takeOne
        split
        · simp
        · split
          · dsimp only
            split
            · exact hCollected _
            · simp
          · exact hReject _ _
      · split
        · unfold Pack.takeList
          dsimp only
          split
          · exact hCollected _
          · exact sendsBelow_map fun _ _ => hReject _ _
        · simp

end Kinds

/-! ### Voices -/

namespace Object

variable {κ : Type}

/-- How many outlets, from the left, an object may send out of. -/
def voices : Object κ → Nat
  | .trigger s => s.conversions.length
  | .unpack s => s.slots.length
  | .select s => s.cases.length + 1
  | .moses _ | .swap _ => 2
  | .message _ | .receive _ | .loadbang | .pack _ | .binop _ | .float _ | .random _ | .bang
  | .toggle _ | .spigot _ | .change _ => 1
  | _ => 0

variable [CustomKind κ]

/-- **What a built-in object sends stays below its voices**, wherever the message arrives. -/
theorem sendsBelow_onMessage (scope : MessageScope) (arrival : Arrival) (m : Message)
    {o : Object κ} (h : o.isBuiltin = true) :
    SendsBelow o.voices (o.onMessage scope arrival m).2 := by
  cases o with
  | custom k => simp [isBuiltin] at h
  | osc s => exact s.sendsBelow scope arrival m
  | phasor s => exact s.sendsBelow scope arrival m
  | tableReader s => exact s.sendsBelow scope arrival m
  | ramp s => exact s.sendsBelow scope arrival m
  | message s => exact s.sendsBelow scope arrival m
  | receive s => exact s.sendsBelow arrival m
  | trigger s => exact s.sendsBelow scope arrival m
  | pack s => exact s.sendsBelow scope arrival m
  | unpack s => exact s.sendsBelow scope arrival m
  | binop s => exact s.sendsBelow scope arrival m
  | float s => exact s.sendsBelow scope arrival m
  | random s => exact s.sendsBelow scope arrival m
  | bang => exact sendsBelow_bangFor arrival
  | toggle s => exact s.sendsBelow scope arrival m
  | spigot s => exact s.sendsBelow scope arrival m
  | moses s => exact s.sendsBelow scope arrival m
  | swap s => exact s.sendsBelow scope arrival m
  | select s => exact s.sendsBelow scope arrival m
  | change s => exact s.sendsBelow scope arrival m
  | print s => exact sendsBelow_record.mpr sendsBelow_nil
  | null | table | signalBinop | mtof | output | loadbang => exact sendsBelow_nil

/-- What a built-in object has scheduled are messages of its own, out of its voices. -/
theorem emits_of_schedule {scope : InitScope} {o : Object κ} (h : o.isBuiltin = true) {due : Float}
    {commands : Action} (hAsked : .schedule due commands ∈ (o.init scope).2) {c : Command}
    (hc : c ∈ commands) : ∃ k m, c = .emit scope.node k m ∧ k < o.voices := by
  have hDuty : .schedule due commands ∈ o.duty.requests scope := by
    rw [← filter_init scope h]
    exact List.mem_filter.mpr ⟨hAsked, rfl⟩
  have hSeed : ∀ inlet, .schedule due commands ∉ seedInlet scope inlet := by
    intro inlet
    unfold seedInlet
    split <;> simp
  cases o with
  | osc s => exact absurd hDuty (hSeed 0)
  | phasor s => exact absurd hDuty (hSeed 0)
  | signalBinop s => exact absurd hDuty (hSeed 1)
  | loadbang =>
      obtain ⟨-, rfl⟩ := Request.schedule.inj (List.mem_singleton.mp hDuty)
      obtain rfl := List.mem_singleton.mp hc
      exact ⟨0, .bang, rfl, Nat.one_pos⟩
  | _ => exact absurd hDuty List.not_mem_nil

/-! ### No hook changes the voices -/

section Hooks

variable {o : Object κ}

theorem voices_init (scope : InitScope) (h : o.isBuiltin = true) :
    (o.init scope).1.voices = o.voices := by
  cases o with
  | custom k => simp [isBuiltin] at h
  | _ => rfl

theorem voices_process (scope : FrameScope) (inputs : Array Input)
    (outputs : Array (Array Float32)) (h : o.isBuiltin = true) :
    (o.process scope inputs outputs).state.voices = o.voices := by
  cases o with
  | custom k => simp [isBuiltin] at h
  | _ => rfl

theorem voices_onMessage (scope : MessageScope) (arrival : Arrival) (m : Message)
    (h : o.isBuiltin = true) : (o.onMessage scope arrival m).1.voices = o.voices := by
  cases o with
  | custom k => simp [isBuiltin] at h
  | trigger s => exact congrArg List.length (Trigger.conversions_onMessage scope arrival m s)
  | unpack s => exact congrArg List.length (Unpack.slots_onMessage scope arrival m s)
  | select s => exact congrArg (· + 1) (s.length_cases scope arrival m)
  | _ => rfl

end Hooks

/-- Whatever a built-in object becomes, it keeps its voices. -/
theorem Becomes.voices {o o' : Object κ} (hLife : o.Becomes o') (h : o.isBuiltin = true) :
    o'.voices = o.voices := by
  induction hLife with
  | start => rfl
  | init scope hLife ih => exact (voices_init scope (hLife.builtin h)).trans ih
  | process scope inputs outputs hLife ih =>
      exact (voices_process scope inputs outputs (hLife.builtin h)).trans ih
  | message scope arrival m hLife ih =>
      exact (voices_onMessage scope arrival m (hLife.builtin h)).trans ih

/-- There is a message outlet for every voice. -/
def VoicedBy (o : Object κ) (outlets : List Rate) : Prop :=
  ∀ k < o.voices, outlets[k]? = some .message

/-- Everything that an object sends through an outlet, about a message or by what it has
scheduled while it was set up, goes out of a message outlet that is there. -/
structure SendsWithin (o : Object κ) (outlets : List Rate) : Prop where
  onMessage : ∀ (scope : MessageScope) (arrival : Arrival) (m : Message) (k : Nat) (out : Message),
    .outlet k out ∈ sent (o.onMessage scope arrival m).2 →
      k < outlets.length ∧ outlets[k]? = some .message
  scheduled : ∀ (scope : InitScope) (due : Float) (commands : Action),
    .schedule due commands ∈ (o.init scope).2 → ∀ c ∈ commands, ∃ k out,
      c = .emit scope.node k out ∧ k < outlets.length ∧ outlets[k]? = some .message

/-- **An object sends within outlets that it is voiced by.** -/
theorem VoicedBy.sendsWithin {o : Object κ} {outlets : List Rate} (h : o.VoicedBy outlets)
    (hBuiltin : o.isBuiltin = true) : o.SendsWithin outlets := by
  have hVoice : ∀ k < o.voices, k < outlets.length ∧ outlets[k]? = some .message :=
    fun k hk => ⟨(List.getElem?_eq_some_iff.mp (h k hk)).1, h k hk⟩
  refine ⟨fun scope arrival m k out hOut => ?_, fun scope due commands hAsked c hc => ?_⟩
  · exact hVoice k (sendsBelow_onMessage scope arrival m hBuiltin k out hOut)
  · obtain ⟨k, out, rfl, hk⟩ := emits_of_schedule hBuiltin hAsked hc
    exact ⟨k, out, rfl, hVoice k hk⟩

/-- What an object becomes has the voices that it had. -/
theorem VoicedBy.becomes {o o' : Object κ} {outlets : List Rate} (h : o.VoicedBy outlets)
    (hBuiltin : o.isBuiltin = true) (hLife : o.Becomes o') : o'.VoicedBy outlets :=
  fun k hk => h k (hLife.voices hBuiltin ▸ hk)

end Object

namespace Registry

variable {κ : Type} [CustomKind κ]

/-- **Every built-in kind lays out its voices.**  The kinds whose voices are counted by their
arguments lay out that many message outlets, the others have them declared. -/
theorem voicedBy_builtinKinds : ∀ d ∈ (builtinKinds : List (KindDecl κ)), ∀ args,
    (d.made args).1.VoicedBy (d.made args).2.outlets := by
  have hReplicate : ∀ n k, k < n → (List.replicate n Rate.message)[k]? = some .message :=
    fun n k hk => List.getElem?_replicate_of_lt hk
  have hConst : ∀ {α : Type} (l : List α) k, k < l.length →
      (l.map fun _ => Rate.message)[k]? = some .message := by
    intro α l k hk
    rw [List.map_const']
    exact hReplicate _ k hk
  simp only [builtinKinds, structuralKinds, signalKinds, controlKinds, SignalOp.all, Operator.all,
    List.map_cons, List.map_nil, List.forall_mem_append, List.forall_mem_cons, List.not_mem_nil,
    false_implies, implies_true, and_true]
  and_intros
  all_goals intro args
  all_goals first
    | exact fun k hk => absurd hk (Nat.not_lt_zero k)
    | exact hReplicate _
    | exact hConst _

theorem builtin_made {d : KindDecl κ} (hd : d ∈ (builtinKinds : List (KindDecl κ)))
    (args : List String) : (d.made args).1.isBuiltin = true :=
  (Object.evolves_preinit args d.layout _ ((suits_builtinKinds d hd).builtin args)).1

/--
**Whatever a box sends, it sends out of a message outlet that it has.**  Take any built-in kind,
with any arguments, and whatever has become of its object through any hooks called with
anything, among them messages at any inlet, also one that the box does not have, and from
outside.  Whatever message arrives next, each message that the object sends through an outlet
goes out of one of those that were laid out for it, and that one carries messages.  What it
schedules while it is set up does so, too, and is sent by the box itself.
-/
theorem sends_within_layout {d : KindDecl κ} (hd : d ∈ (builtinKinds : List (KindDecl κ)))
    (args : List String) {o : Object κ} (hLife : (d.made args).1.Becomes o) :
    o.SendsWithin (d.made args).2.outlets := by
  have hMade := builtin_made hd args
  exact ((voicedBy_builtinKinds d hd args).becomes hMade hLife).sendsWithin (hLife.builtin hMade)

/-- A `select` with one argument. -/
def selectKind : KindDecl Empty :=
  controlKind "select" 2 0 "match and bang" fun args => .select (.ofArgs args)

/-- A `select` whose argument has been replaced through its second inlet still has an outlet for
its argument and one for everything else. -/
theorem sends_within_layout_select :
    selectKind ∈ (builtinKinds : List (KindDecl Empty)) ∧
      (selectKind.made ["1"]).1.Becomes
        ((selectKind.made ["1"]).1.onMessage MessageBox.firstScope (.inlet 1) (.symbol "go")).1 ∧
      (selectKind.made ["1"]).2.outlets = [.message, .message] ∧
      ((selectKind.made ["1"]).1.onMessage MessageBox.firstScope (.inlet 1)
        (.symbol "go")).1.SendsWithin (selectKind.made ["1"]).2.outlets := by
  have hKind : selectKind ∈ (builtinKinds : List (KindDecl Empty)) := by
    simp [builtinKinds, controlKinds, selectKind]
  have hLife : (selectKind.made ["1"]).1.Becomes
      ((selectKind.made ["1"]).1.onMessage MessageBox.firstScope (.inlet 1) (.symbol "go")).1 :=
    .message _ _ _ .start
  exact ⟨hKind, hLife, rfl, sends_within_layout hKind ["1"] hLife⟩

end Registry

/-! ### In an engine -/

/-- **In a live engine nothing is sent past the outlets of a box**, since every box has the
outlets that were laid out for the arguments that its object was made of. -/
theorem Engine.Live.sendsWithin {κ : Type} [CustomKind κ] {e : Engine κ} (h : e.Live)
    {n : Node κ} (hn : n ∈ e.graph.nodes) : n.object.SendsWithin n.outlets := by
  obtain ⟨-, hOutlets, hLife⟩ := h.descends n hn
  rw [hOutlets]
  have hMade : (Registry.madeFor n.kind n.args : Object κ × Layout).1.isBuiltin = true ∧
      (Registry.madeFor n.kind n.args : Object κ × Layout).1.VoicedBy
        (Registry.madeFor n.kind n.args : Object κ × Layout).2.outlets := by
    rcases Registry.madeFor_cases (κ := κ) n.kind n.args with ⟨d, hd, hKind⟩ | hNull
    · rw [hKind]
      exact ⟨Registry.builtin_made hd n.args, Registry.voicedBy_builtinKinds d hd n.args⟩
    · rw [hNull]
      exact ⟨rfl, fun k hk => absurd hk (Nat.not_lt_zero k)⟩
  exact (hMade.2.becomes hMade.1 hLife).sendsWithin (hLife.builtin hMade.1)

end Patchbay
