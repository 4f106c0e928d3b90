import ShaderGraph.Graph.Clock
import ShaderGraph.Table
import ShaderGraph.Value

/-!
# Uniforms over time

Every clock of a shader drives one uniform. Time is accumulated in double precision, once for all
clocks that read the same source. A binder gives places to sources and uniforms while the clocks
are bound one after another; an update advances each source once and sets every uniform to its time
at its scale, rounded to single precision.
-/

namespace ShaderGraph

/-- What tells sources apart: the number of the node that keeps its own time, or a name. -/
inductive TimeKey where
  | node (number : Nat)
  | shared (name : String)
deriving DecidableEq

/-- What a source is asked for by: the identifier of a node, or a name that clocks share. -/
inductive TimeSource where
  | node (ident : String)
  | shared (name : String)
deriving DecidableEq

namespace Clock

/-- The key of the source that the clock of a node reads. -/
def key (c : Clock) (number : Nat) : TimeKey :=
  match c.source with
  | .own => .node number
  | .shared name => .shared name

def timeSource (c : Clock) (ident : String) : TimeSource :=
  match c.source with
  | .own => .node ident
  | .shared name => .shared name

end Clock

/-- The places of a uniform and of the source that it reads, and the scale at which it does. -/
structure Binding where
  slot : Nat
  source : Nat
  scale : Single
deriving DecidableEq

structure Uniforms where
  /-- The sources in the order in which they were bound first. -/
  sources : List TimeSource
  /-- The accumulated times of the sources. -/
  times : List Double
  bindings : List Binding
  values : Table Value
deriving DecidableEq

namespace Uniforms

instance : Inhabited Uniforms := ⟨⟨[], [], [], .empty⟩⟩

def time? (u : Uniforms) (source : TimeSource) : Option Double :=
  (u.sources.idxOf? source).bind (u.times[·]?)

/-- The value of a uniform after `time`, which is multiplied in double precision. -/
def valueAt (time : Double) (scale : Single) : Value :=
  .float (time * (scale.convert : Double)).convert

/-- Sets every uniform to what it reads from the accumulated times. -/
def refresh (u : Uniforms) : Uniforms :=
  { u with
    values := u.bindings.foldl
      (fun values b => values.setAt b.slot (valueAt (u.times.getD b.source .zero) b.scale))
      u.values }

def update (u : Uniforms) (delta : Double) : Uniforms :=
  { u with times := u.times.map (· + delta) }.refresh

/-- The time of a node's own clock. -/
def elapsed? (u : Uniforms) (ident : String) : Option Double := u.time? (.node ident)

/-- The time of a shared source. -/
def sharedElapsed? (u : Uniforms) (name : String) : Option Double := u.time? (.shared name)

def sourceCount (u : Uniforms) : Nat := u.times.length

end Uniforms

/-- The clocks that are bound so far. -/
structure Binder where
  /-- The sources with their keys, each key once. -/
  sources : List (TimeKey × TimeSource)
  bindings : List Binding
  values : Table Value

namespace Binder

def empty : Binder := ⟨[], [], .empty⟩

def keys (b : Binder) : List TimeKey := b.sources.map Prod.fst

/-- The binder with a source. One that was added before keeps its place. -/
def addSource (b : Binder) (key : TimeKey) (source : TimeSource) : Binder :=
  if key ∈ b.keys then b else { b with sources := b.sources ++ [(key, source)] }

/-- Binds the clock of a node to the uniform of a name. -/
def bind (b : Binder) (number : Nat) (ident uniform : String) (clock : Clock) : Binder :=
  let b := b.addSource (clock.key number) (clock.timeSource ident)
  let values := b.values.insert uniform (.float .zero)
  let binding : Binding :=
    ⟨values.keys.idxOf uniform, b.keys.idxOf (clock.key number), clock.scale⟩
  { b with bindings := b.bindings ++ [binding], values }

/-- The uniforms before any time has passed. -/
def finish (b : Binder) : Uniforms :=
  ⟨b.sources.map Prod.snd, List.replicate b.sources.length .zero, b.bindings, b.values⟩

end Binder

end ShaderGraph
