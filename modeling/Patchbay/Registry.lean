import Patchbay.Names
import Patchbay.Object
import Patchbay.Text.Quoted

/-
The kinds of boxes that a patch may use, by name.

A declaration says which slots a kind has before its arguments are looked at, and
how to make an object from arguments.  Names are first looked up among the aliases;
an alias leads to the kind of its target's name and not to another alias.  A name
that leads nowhere stands for the inert placeholder, so that every box of a patch
still becomes a node.
-/

namespace Patchbay

/-- What a kind is for. -/
inductive Category where
  /-- Computes buffers or feeds the output. -/
  | signal
  /-- Works on messages only. -/
  | control
  /-- Tables, comments and placeholders. -/
  | structural
  deriving DecidableEq

def Category.name : Category → String
  | .signal => "Signal"
  | .control => "Control"
  | .structural => "Structural"

structure KindDecl (κ : Type) where
  name : String
  description : String
  category : Category
  /-- How many inlets a box has at least. -/
  inlets : Nat
  outlets : List Rate
  /-- Which inlets carry a signal. -/
  signalInlets : List Nat
  /-- Whether every frame is pulled from here. -/
  endpoint : Bool
  /-- Make an object from its arguments, with complaints about them. -/
  make : List String → Object κ × List Entry

namespace KindDecl

variable {κ : Type}

/-- A control kind without slots. -/
def new (name : String) (make : List String → Object κ) : KindDecl κ :=
  { name, description := "", category := .control, inlets := 0, outlets := [], signalInlets := [],
    endpoint := false, make := fun args => (make args, []) }

def describe (d : KindDecl κ) (description : String) : KindDecl κ :=
  { d with description }

def withCategory (d : KindDecl κ) (category : Category) : KindDecl κ :=
  { d with category }

def withInlets (d : KindDecl κ) (inlets : Nat) : KindDecl κ :=
  { d with inlets }

def withOutlets (d : KindDecl κ) (outlets : List Rate) : KindDecl κ :=
  { d with outlets }

/-- Let these inlets carry signals, which makes the kind a signal kind. -/
def withSignalInlets (d : KindDecl κ) (signalInlets : List Nat) : KindDecl κ :=
  { d with signalInlets, category := .signal }

/-- Pull every frame from boxes of this kind, which makes it a signal kind. -/
def asEndpoint (d : KindDecl κ) : KindDecl κ :=
  { d with endpoint := true, category := .signal }

/-- The slots of a box before its arguments are looked at.  There are enough inlets for every one
that carries a signal. -/
def layout (d : KindDecl κ) : Layout :=
  ⟨max ((d.signalInlets.map (· + 1)).foldl max 0) d.inlets, d.outlets⟩

/-- The rate of an inlet. -/
def inletRate (d : KindDecl κ) (i : Nat) : Rate :=
  if i ∈ d.signalInlets then .signal else .message

private def bracketed (items : List String) : String :=
  "[" ++ String.intercalate ", " items ++ "]"

/-- A declaration as text. -/
def summary (d : KindDecl κ) : String :=
  s!"KindDecl \x7b name: {quoted d.name}, category: {d.category.name}, inlets: {d.inlets}, " ++
    s!"outlets: {bracketed (d.outlets.map Rate.name)}, " ++
    s!"signal_inlets: {bracketed (d.signalInlets.map toString)}, endpoint: {d.endpoint} \x7d"

end KindDecl

/-- Kinds and aliases. -/
structure Registry (κ : Type) where
  kinds : ByName (KindDecl κ)
  aliases : ByName String

namespace Registry

variable {κ : Type}

/-- Every name leads to the placeholder. -/
def empty : Registry κ := ⟨.empty, .empty⟩

/-- What a name that leads nowhere stands for. -/
def fallback : KindDecl κ :=
  (KindDecl.new "null" fun _ => .null).withCategory .structural |>.describe "inert placeholder"

/-- Add a kind, in the place of one with the same name if there is one. -/
def register (r : Registry κ) (d : KindDecl κ) : Registry κ :=
  { r with kinds := r.kinds.insert d.name d }

/-- Let a name lead to the kind that is registered under another one. -/
def addAlias (r : Registry κ) (name target : String) : Registry κ :=
  { r with aliases := r.aliases.insert name target }

/-- The kind that a name leads to. -/
def get? (r : Registry κ) (name : String) : Option (KindDecl κ) :=
  r.kinds.get? ((r.aliases.get? name).getD name)

/-- The kind that a name leads to, or else the placeholder.  Only the placeholder's own name does
so silently. -/
def resolve (r : Registry κ) (name : String) : KindDecl κ × List Entry :=
  match r.get? name with
  | some d => (d, [])
  | none =>
    (fallback, if name = (fallback : KindDecl κ).name then []
      else [.warn s!"{name} ... couldn't create"])

/-- The names of all kinds, aliases excluded. -/
def names (r : Registry κ) : List String :=
  r.kinds.values.map KindDecl.name

/-- The kinds of a category. -/
def inCategory (r : Registry κ) (c : Category) : List (KindDecl κ) :=
  r.kinds.values.filter fun d => d.category == c

def size (r : Registry κ) : Nat :=
  r.kinds.size

def isEmpty (r : Registry κ) : Bool :=
  r.kinds.isEmpty

/-! ### Built-in kinds -/

/-- A kind with message slots only. -/
def controlKind (name : String) (inlets outlets : Nat) (description : String)
    (make : List String → Object κ) : KindDecl κ :=
  (KindDecl.new name make).withInlets inlets
    |>.withOutlets (List.replicate outlets .message) |>.describe description

/-- A kind with one signal outlet. -/
def signalKind (name : String) (inlets : Nat) (signalInlets : List Nat) (description : String)
    (object : Object κ) : KindDecl κ :=
  (KindDecl.new name fun _ => object).withInlets inlets |>.withOutlets [.signal]
    |>.withSignalInlets signalInlets |>.describe description

/-- A kind that takes up a node and does nothing. -/
def structuralKind (name description : String) (object : Object κ) : KindDecl κ :=
  (KindDecl.new name fun _ => object).withCategory .structural |>.describe description

/-- A kind whose construction may complain about its arguments. -/
def withComplaints (d : KindDecl κ) (make : List String → Object κ × List Entry) : KindDecl κ :=
  { d with make }

def structuralKinds : List (KindDecl κ) :=
  [structuralKind "table" "named sample table" (.table ""),
   structuralKind "text" "comment" .null]

def signalKinds : List (KindDecl κ) :=
  [signalKind "osc~" 2 [0] "cosine oscillator" (.osc .new),
   signalKind "phasor~" 2 [0] "sawtooth from 0 to 1" (.phasor .new)] ++
  SignalOp.all.map (fun (name, op) =>
    signalKind name 2 [0, 1] "per-sample arithmetic" (.signalBinop ⟨op⟩)) ++
  [signalKind "mtof~" 1 [0] "MIDI note to frequency" .mtof,
   signalKind "tabread~" 1 [0] "non-interpolating table lookup" (.tableReader .new),
   signalKind "line~" 2 [] "linear ramp generator" (.ramp .new)]

def controlKinds : List (KindDecl κ) :=
  [controlKind "msg" 1 1 "message box" fun _ => .message .new,
   controlKind "receive" 0 1 "named receiver" fun _ => .receive .new,
   controlKind "loadbang" 0 1 "bang on the first frame" fun _ => .loadbang,
   controlKind "print" 1 0 "log messages" fun _ => .print .new,
   controlKind "trigger" 1 0 "fan out right to left with conversion" fun args =>
     .trigger (.ofArgs args),
   withComplaints (controlKind "pack" 2 1 "combine atoms into a list" fun _ => .null) fun args =>
     let (s, entries) := Pack.ofArgs args
     (.pack s, entries),
   withComplaints (controlKind "unpack" 1 0 "split a list into atoms" fun _ => .null) fun args =>
     let (s, entries) := Unpack.ofArgs args
     (.unpack s, entries)] ++
  Operator.all.map (fun (name, op) =>
    controlKind name 2 1 "control arithmetic" fun _ => .binop (.new op)) ++
  [controlKind "float" 2 1 "store a float" fun _ => .float .float,
   controlKind "int" 2 1 "store an integer" fun _ => .float .int,
   controlKind "random" 2 1 "pseudo-random integers" fun _ => .random .new,
   controlKind "bang" 1 1 "convert to bang" fun _ => .bang,
   controlKind "tgl" 1 1 "toggle" fun _ => .toggle .new,
   controlKind "spigot" 2 1 "message gate" fun _ => .spigot .new,
   controlKind "moses" 2 2 "split floats at a threshold" fun _ => .moses .new,
   controlKind "swap" 2 2 "exchange two floats" fun _ => .swap .new,
   controlKind "select" 2 0 "match and bang" fun args => .select (.ofArgs args),
   controlKind "change" 1 1 "drop repeated floats" fun _ => .change .new]

/-- The only built-in kind that frames are pulled from. -/
def outputKind : KindDecl κ :=
  (KindDecl.new "dac~" fun _ => .output).withInlets 2 |>.withSignalInlets [0, 1]
    |>.asEndpoint |>.describe "stereo audio output"

def builtinKinds : List (KindDecl κ) :=
  structuralKinds ++ signalKinds ++ controlKinds ++ [outputKind]

def builtinAliases : List (String × String) :=
  [("r", "receive"), ("t", "trigger"), ("f", "float"), ("i", "int"), ("b", "bang"),
   ("bng", "bang"), ("sel", "select")]

/-- Every built-in kind and alias. -/
def builtin : Registry κ :=
  let kinds := builtinKinds.foldl register empty
  builtinAliases.foldl (fun r (name, target) => r.addAlias name target) kinds

end Registry

end Patchbay
