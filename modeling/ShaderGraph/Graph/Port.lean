import ShaderGraph.Graph.Design
import ShaderGraph.Value

/-!
# Ports

A port has a declared kind and a source: a literal, code that is passed through, or an edge to an
output of a producer. `Port.fault?` says what is wrong with a source; producers are named by values
of a type `ρ`, and a function gives their designs.
-/

namespace ShaderGraph

inductive Source (ρ : Type) where
  | literal (value : Value)
  /-- Code that is trusted to fit the port. -/
  | raw (expr : String)
  | edge (producer : ρ) (output : String)
deriving DecidableEq

structure Port (ρ : Type) where
  kind : Kind
  source : Option (Source ρ)
  /-- Whether a single number is widened to the kind of the port. -/
  broadcast : Bool
  /-- Whether the port may stay without a source. -/
  optional : Bool
deriving DecidableEq

/-- What can be wrong with the source of a port. -/
inductive Fault where
  | nonFinite
  | noOutput (producer : String)
  | unknownOutput (producer output : String)
  | mismatch (expected found : Kind)
deriving DecidableEq

variable {ρ σ : Type}

namespace Source

def map (f : ρ → σ) : Source ρ → Source σ
  | .literal v => .literal v
  | .raw e => .raw e
  | .edge producer output => .edge (f producer) output

/-- The producer and the output that an edge reads. -/
def edge? : Source ρ → Option (ρ × String)
  | .edge producer output => some (producer, output)
  | _ => none

end Source

/-- The kind of a producer's output. -/
def Design.outputKind (d : Design) (output : String) : Except Fault Kind :=
  if d.outputs.isEmpty then .error (.noOutput d.name)
  else match d.outputs.get? output with
    | some spec => .ok spec.kind
    | none => .error (.unknownOutput d.name output)

namespace Port

def ofKind (kind : Kind) : Port ρ := ⟨kind, none, false, false⟩

def map (f : ρ → σ) (p : Port ρ) : Port σ :=
  ⟨p.kind, p.source.map (Source.map f), p.broadcast, p.optional⟩

/-- The port with another source. -/
def wired (p : Port ρ) (source : Source ρ) : Port ρ := { p with source := some source }

def edge? (p : Port ρ) : Option (ρ × String) := p.source.bind Source.edge?

/-- Whether a value of a known kind fits the port. -/
def accept (p : Port ρ) (found : Kind) : Except Fault Unit :=
  if p.kind.accepts found p.broadcast then .ok () else .error (.mismatch p.kind found)

/-- Checks the source against the declared kind; a port without a source has nothing to check. -/
def validate (design : ρ → Design) (p : Port ρ) : Except Fault Unit :=
  match p.source with
  | none | some (.raw _) => .ok ()
  | some (.literal v) => if v.isFinite then p.accept v.kind else .error .nonFinite
  | some (.edge producer output) => do
    p.accept (← (design producer).outputKind output)

end Port

end ShaderGraph
