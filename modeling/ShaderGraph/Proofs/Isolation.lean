import ShaderGraph.Proofs.Emission
import ShaderGraph.Proofs.Relabelling

/-!
# Stages are isolated

Graphs that differ in one stage only (`Store.DiffersIn`) have the same other stage. Who takes part
in which stage hangs on edges, on the stages of slots and on whether there is a body, the outline of
a graph, which does not differ (`Diagram.SameOutline.shares_eq`); so the other stage has the same
nodes in the same order, and each is emitted as before (`Diagram.DiffersIn.emit_eq`). The source of
the other stage and the bound values are the same (`Store.stages_isolated`).
-/

namespace ShaderGraph

/-- The other one of the two stages. -/
def Stage.other : Stage → Stage
  | .vertex => .fragment
  | .fragment => .vertex

theorem Stage.eq_or_eq_other (stage t : Stage) : t = stage ∨ t = stage.other := by
  cases stage <;> cases t <;> simp [other]

theorem Stage.other_ne (stage : Stage) : stage.other ≠ stage := by
  cases stage <;> simp [other]

section Related

variable {α β γ : Type} {R : α → β → Prop} {l : List α} {l' : List β}

theorem map_congr_forall₂ {f : α → γ} {g : β → γ} (h : List.Forall₂ R l l')
    (hfg : ∀ a b, R a b → g b = f a) : l'.map g = l.map f := by
  induction h with
  | nil => rfl
  | cons hab _ ih => rw [List.map_cons, List.map_cons, hfg _ _ hab, ih]

theorem mapM_congr_forall₂ {ε : Type} {f : α → Except ε γ} {g : β → Except ε γ}
    (h : List.Forall₂ R l l') (hfg : ∀ a ∈ l, ∀ b, R a b → g b = f a) : l'.mapM g = l.mapM f := by
  induction h with
  | nil => rfl
  | cons hab _ ih =>
    rw [List.mapM_cons, List.mapM_cons, hfg _ List.mem_cons_self _ hab,
      ih fun a ha => hfg a (List.mem_cons_of_mem _ ha)]

end Related

/-! ## Related tables -/

namespace Table

variable {α β γ : Type} {R : String → α → β → Prop} {t : Table α} {t' : Table β}

/-- The same names in the same order, with related values. -/
def Rel (R : String → α → β → Prop) (t : Table α) (t' : Table β) : Prop :=
  List.Forall₂ (fun a b => b.1 = a.1 ∧ R a.1 a.2 b.2) t.entries t'.entries

theorem Rel.refl {R : String → α → α → Prop} (hR : ∀ name a, R name a a) (t : Table α) :
    t.Rel R t :=
  List.forall₂_same.2 fun entry _ => ⟨rfl, hR entry.1 entry.2⟩

theorem Rel.isEmpty (h : t.Rel R t') : t'.isEmpty = t.isEmpty := by
  rcases t with ⟨_ | _, _⟩ <;> rcases t' with ⟨_ | _, _⟩ <;> cases h <;> rfl

/-- A name stands for related values in both tables, or for none in both. -/
theorem Rel.map_get? (h : t.Rel R t') {key : String} {f : α → γ} {g : β → γ}
    (hfg : ∀ a b, R key a b → g b = f a) : (t'.get? key).map g = (t.get? key).map f := by
  unfold Rel at h
  unfold get?
  generalize t.entries = l, t'.entries = l' at h ⊢
  induction h with
  | nil => rfl
  | @cons a b _ _ hab _ ih =>
    rw [List.find?_cons, List.find?_cons, hab.1]
    by_cases hkey : a.1 = key
    · simpa [hkey] using hfg _ _ (hkey ▸ hab.2)
    · simpa [hkey] using ih

end Table

/-! ## Outlines -/

/-- The nodes read the same, take part in stages alike and declare the same. -/
structure Node.SameOutline {ρ : Type} (n n' : Node ρ) : Prop where
  outputs : n'.design.outputs = n.design.outputs
  interpolated : n'.design.interpolated = n.design.interpolated
  clock : n'.design.clock = n.design.clock
  isMaster : n'.design.isMaster = n.design.isMaster
  body : ∀ t, (n'.design.code t).body.isSome = (n.design.code t).body.isSome
  slot : ∀ name, (n'.design.slots.get? name).map Slot.stage =
    (n.design.slots.get? name).map Slot.stage
  edges : n'.inputs.entries.map (fun input => (input.1, input.2.edge?)) =
    n.inputs.entries.map fun input => (input.1, input.2.edge?)

theorem Node.SameOutline.producers {ρ : Type} {n n' : Node ρ} (h : n.SameOutline n') :
    n'.producers = n.producers := by
  have hproducers : ∀ m : Node ρ, m.producers =
      (m.inputs.entries.map fun input => (input.1, input.2.edge?)).filterMap
        fun input => input.2.map Prod.fst := by
    intro m
    rw [Node.producers, Table.values, List.filterMap_map, List.filterMap_map]
    rfl
  rw [hproducers, hproducers, h.edges]

/-- Generated names hang on the identifier of the node alone. -/
theorem Entry.names_congr {e e' : Entry} (h : e'.ident = e.ident) :
    e'.inputName = e.inputName ∧ e'.outputName = e.outputName ∧
      e'.varyingName = e.varyingName ∧ e'.uniformName = e.uniformName := by
  refine ⟨?_, ?_, ?_, ?_⟩ <;> funext x
  · rw [inputName, inputName, h]
  · rw [outputName, outputName, h]
  · rw [varyingName, varyingName, h]
  · rw [uniformName, uniformName, h]

/-- The diagrams have the same numbers, identifiers and order, and nodes of the same outlines. -/
structure Diagram.SameOutline (d d' : Diagram) : Prop where
  length : d'.entries.length = d.entries.length
  order : d'.order = d.order
  ident : ∀ i, (d'.entry i).ident = (d.entry i).ident
  node : ∀ i, (d.entry i).node.SameOutline (d'.entry i).node

namespace Diagram.SameOutline

variable {d d' : Diagram} (h : d.SameOutline d')
include h

/-! ### Participation -/

theorem demands (i : Nat) (stages : Stages) : d'.demands i stages = d.demands i stages := by
  have hread : ∀ d : Diagram, d.demands i stages =
      ((d.entry i).node.inputs.entries.map fun input => (input.1, input.2.edge?)).flatMap
        fun input => input.2.elim [] fun edge =>
          (if (d.entry i).node.design.isMaster then
            (((d.entry i).node.design.slots.get? input.1).map Slot.stage).toList
          else stages.toList).map fun stage => ⟨edge.1, stage, edge.2⟩ := by
    intro d
    rw [List.flatMap_map, Diagram.demands]
    refine List.flatMap_congr fun input _ => ?_
    dsimp only
    rcases input.2.edge? with _ | edge <;> rfl
  simp only [hread, (h.node i).edges, (h.node i).isMaster, (h.node i).slot]

theorem demand : d'.demand = d.demand := by
  funext shares m
  have hinterpolated : (d'.design m.producer).interpolated = (d.design m.producer).interpolated :=
    (h.node m.producer).interpolated
  simp only [Diagram.demand, Share.demanded, hinterpolated]

theorem settle : d'.settle = d.settle := by
  funext shares i
  have hbody : ∀ t, ((d'.design i).code t).body.isSome = ((d.design i).code t).body.isSome :=
    (h.node i).body
  simp only [Diagram.settle, Share.withBodies, hbody, h.demands, h.demand]

/-- The nodes take part in the same stages and hand over the same outputs. -/
theorem shares_eq : d'.shares = d.shares := by
  rw [Diagram.shares, Diagram.shares, h.order, h.length, h.settle]

theorem share_eq : (Plan.ofDiagram d').share = (Plan.ofDiagram d).share := by
  funext i
  simp only [Plan.share, Plan.ofDiagram, h.shares_eq]

theorem stageOrder_eq (t : Stage) :
    (Plan.ofDiagram d').stageOrder t = (Plan.ofDiagram d).stageOrder t := by
  have hmaster : ∀ i, (d'.design i).isMaster = (d.design i).isMaster :=
    fun i => (h.node i).isMaster
  simp only [Plan.stageOrder, h.share_eq]
  simp only [Plan.ofDiagram, h.order, hmaster]

/-! ### Declarations -/

theorem uniform?_eq : (Plan.ofDiagram d').uniform? = (Plan.ofDiagram d).uniform? := by
  funext i
  simp only [Plan.uniform?, Plan.ofDiagram, (h.node i).clock,
    (Entry.names_congr (h.ident i)).2.2.2]

theorem varyings_eq : (Plan.ofDiagram d').varyings = (Plan.ofDiagram d).varyings := by
  have hnames := fun i => (Entry.names_congr (h.ident i)).2.2.1
  have houtputs := fun i => (h.node i).outputs
  simp only [Plan.varyings, h.share_eq]
  simp only [Plan.ofDiagram, h.length, houtputs, hnames]

theorem uniforms_eq : (Plan.ofDiagram d').uniforms = (Plan.ofDiagram d).uniforms := by
  have hbind : (Plan.ofDiagram d').bindClock = (Plan.ofDiagram d).bindClock := by
    funext b i
    have hname := (Entry.names_congr (h.ident i)).2.2.2
    simp only [Plan.bindClock, Plan.ofDiagram, (h.node i).clock, hname, h.ident]
  rw [Plan.uniforms, Plan.uniforms, hbind]
  simp only [Plan.ofDiagram, h.length]

/-! ### Statements -/

/-- What is emitted for the node is made of the same names. -/
theorem rename_eq (i : Nat) (t : Stage) (wires : List Wire) :
    (d'.entry i).rename t wires = (d.entry i).rename t wires := by
  obtain ⟨-, hout, -, huni⟩ := Entry.names_congr (h.ident i)
  funext word
  simp only [Entry.rename, (h.node i).outputs, (h.node i).clock, hout, huni, h.ident]

theorem declaration_eq (i : Nat) (t : Stage) (wires : List Wire) :
    (d'.entry i).declaration t wires = (d.entry i).declaration t wires := by
  funext name output
  simp only [Entry.declaration, (Entry.names_congr (h.ident i)).2.1, h.rename_eq]

theorem scope_eq {i : Nat} {t : Stage}
    (hcode : (d'.design i).code t = (d.design i).code t) (wires : List Wire) :
    (d'.entry i).scope t wires = (d.entry i).scope t wires := by
  have hcode' : (d'.entry i).node.design.code t = (d.entry i).node.design.code t := hcode
  simp only [Entry.scope, hcode', h.rename_eq]

theorem headers_eq {t : Stage} (hcode : ∀ i, (d'.design i).code t = (d.design i).code t) :
    (Plan.ofDiagram d').headers t = (Plan.ofDiagram d).headers t := by
  simp only [Plan.headers, h.stageOrder_eq]
  simp only [Plan.ofDiagram, hcode]

theorem handOver_eq (t : Stage) (i : Nat) :
    (Plan.ofDiagram d').handOver t i = (Plan.ofDiagram d).handOver t i := by
  obtain ⟨-, hout, hvar, -⟩ := Entry.names_congr (h.ident i)
  simp only [Plan.handOver, h.share_eq]
  simp only [Plan.ofDiagram, hout, hvar]

end Diagram.SameOutline

/-! ## What may differ -/

/-- The ports have one declaration. They have one source or, if `loose`, each a literal or raw code
of its own. -/
structure Port.SameUpTo {ρ : Type} (loose : Prop) (p q : Port ρ) : Prop where
  kind : q.kind = p.kind
  broadcast : q.broadcast = p.broadcast
  optional : q.optional = p.optional
  source : q.source = p.source ∨ loose ∧ ∃ a b, p.source = some a ∧ q.source = some b ∧
    a.edge? = none ∧ b.edge? = none

namespace Port.SameUpTo

variable {ρ σ : Type} {loose : Prop} {p q : Port ρ}

theorem refl (loose : Prop) (p : Port ρ) : SameUpTo loose p p := ⟨rfl, rfl, rfl, .inl rfl⟩

theorem eq (h : SameUpTo loose p q) (hloose : ¬ loose) : q = p := by
  have hs := h.source.resolve_right fun hs => hloose hs.1
  obtain ⟨hk, hb, ho, -⟩ := h
  cases p
  cases q
  simp_all

theorem edge? (h : SameUpTo loose p q) : q.edge? = p.edge? := by
  rcases h.source with hs | ⟨-, a, b, hp, hq, ha, hb⟩
  · rw [Port.edge?, Port.edge?, hs]
  · rw [Port.edge?, Port.edge?, hp, hq, Option.bind_some, Option.bind_some, ha, hb]

theorem mono {loose' : Prop} (h : SameUpTo loose p q) (hl : loose → loose') :
    SameUpTo loose' p q :=
  ⟨h.kind, h.broadcast, h.optional, h.source.imp_right fun hs => ⟨hl hs.1, hs.2⟩⟩

theorem map (h : SameUpTo loose p q) (f : ρ → σ) : SameUpTo loose (p.map f) (q.map f) := by
  refine ⟨h.kind, h.broadcast, h.optional, h.source.imp (fun hs => ?_) fun hs => ⟨hs.1, ?_⟩⟩
  · rw [Port.map, Port.map, hs]
  · obtain ⟨-, a, b, hp, hq, ha, hb⟩ := hs
    refine ⟨a.map f, b.map f, by rw [Port.map, hp]; rfl, by rw [Port.map, hq]; rfl, ?_, ?_⟩
    · cases a <;> simp_all [Source.edge?, Source.map]
    · cases b <;> simp_all [Source.edge?, Source.map]

end Port.SameUpTo

/-- The designs differ in one stage at most: in the text of its body, if there is one, in its
header, and in what the slots of the stage write. -/
structure Design.DiffersIn (stage : Stage) (d d' : Design) : Prop where
  name : d'.name = d.name
  outputs : d'.outputs = d.outputs
  primary : d'.primary = d.primary
  interpolated : d'.interpolated = d.interpolated
  clock : d'.clock = d.clock
  code : d'.code stage.other = d.code stage.other
  body : (d'.code stage).body.isSome = (d.code stage).body.isSome
  slots : d.slots.Rel
    (fun _ slot slot' => slot'.stage = slot.stage ∧ (slot.stage = stage.other → slot' = slot))
    d'.slots

/-- The nodes differ in one stage at most, and in literals and raw code of the inputs that are
`loose`. -/
structure Node.DiffersIn {ρ : Type} (stage : Stage) (loose : String → Prop) (n n' : Node ρ) :
    Prop where
  design : n.design.DiffersIn stage n'.design
  inputs : n.inputs.Rel (fun name => Port.SameUpTo (loose name)) n'.inputs

namespace Design.DiffersIn

variable {stage : Stage} {d d' : Design}

theorem refl (stage : Stage) (d : Design) : d.DiffersIn stage d :=
  ⟨rfl, rfl, rfl, rfl, rfl, rfl, rfl, .refl (fun _ _ => ⟨rfl, fun _ => rfl⟩) _⟩

variable (h : d.DiffersIn stage d')
include h

theorem isMaster : d'.isMaster = d.isMaster := by
  rw [Design.isMaster, Design.isMaster, h.slots.isEmpty]

theorem isSome_body (t : Stage) : (d'.code t).body.isSome = (d.code t).body.isSome := by
  rcases stage.eq_or_eq_other t with rfl | rfl
  · exact h.body
  · rw [h.code]

theorem stage_slot (name : String) :
    (d'.slots.get? name).map Slot.stage = (d.slots.get? name).map Slot.stage := by
  exact h.slots.map_get? fun _ _ hslot => hslot.1

theorem outputKind : d'.outputKind = d.outputKind := by
  funext output
  rw [Design.outputKind, Design.outputKind, h.name, h.outputs]

end Design.DiffersIn

namespace Node.DiffersIn

variable {ρ σ : Type} {stage : Stage} {loose : String → Prop} {n n' : Node ρ}

theorem refl (stage : Stage) (loose : String → Prop) (n : Node ρ) : n.DiffersIn stage loose n :=
  ⟨.refl stage _, .refl (fun _ => .refl _) _⟩

variable (h : n.DiffersIn stage loose n')
include h

theorem map (f : ρ → σ) : (n.map f).DiffersIn stage loose (n'.map f) := by
  refine ⟨h.design, ?_⟩
  simp only [Table.Rel, Node.map, Table.entries_map, List.forall₂_map_left_iff,
    List.forall₂_map_right_iff]
  exact h.inputs.imp fun a b hab => ⟨hab.1, hab.2.map f⟩

theorem mono {loose' : String → Prop} (hl : ∀ name, loose name → loose' name) :
    n.DiffersIn stage loose' n' :=
  ⟨h.design, h.inputs.imp fun a _ hab => ⟨hab.1, hab.2.mono (hl a.1)⟩⟩

theorem outline : n.SameOutline n' := by
  refine ⟨h.design.outputs, h.design.interpolated, h.design.clock, h.design.isMaster,
    h.design.isSome_body, h.design.stage_slot, map_congr_forall₂ h.inputs fun a b hab => ?_⟩
  rw [hab.1, hab.2.edge?]

theorem get?_inputs {name : String} (hloose : ¬ loose name) :
    n'.inputs.get? name = n.inputs.get? name := by
  have hports : (n'.inputs.get? name).map id = (n.inputs.get? name).map id :=
    h.inputs.map_get? fun _ _ hp => hp.eq hloose
  simpa using hports

theorem inputs_eq (hloose : ∀ name, ¬ loose name) : n'.inputs = n.inputs := by
  have hentries : n'.inputs.entries.map id = n.inputs.entries.map id :=
    map_congr_forall₂ h.inputs fun a b hab => Prod.ext hab.1 (hab.2.eq (hloose a.1))
  rw [List.map_id, List.map_id] at hentries
  cases hn : n.inputs
  cases hn' : n'.inputs
  simp_all

end Node.DiffersIn

/-! ## Diagrams -/

/-- The diagrams have the same numbers, names and order, and nodes that differ in one stage. -/
structure Diagram.DiffersIn (stage : Stage) (loose : Nat → String → Prop) (d d' : Diagram) :
    Prop where
  length : d'.entries.length = d.entries.length
  order : d'.order = d.order
  ident : ∀ i, (d'.entry i).ident = (d.entry i).ident
  node : ∀ i, (d.entry i).node.DiffersIn stage (loose i) (d'.entry i).node

namespace Diagram.DiffersIn

variable {stage : Stage} {loose : Nat → String → Prop} {d d' : Diagram}
variable (h : d.DiffersIn stage loose d')
include h

theorem design (i : Nat) : (d.design i).DiffersIn stage (d'.design i) := (h.node i).design

theorem outline : d.SameOutline d' :=
  ⟨h.length, h.order, h.ident, fun i => (h.node i).outline⟩

theorem headers_eq :
    (Plan.ofDiagram d').headers stage.other = (Plan.ofDiagram d).headers stage.other :=
  h.outline.headers_eq fun i => (h.design i).code

/-! ### Statements -/

theorem reference_eq (t : Stage) {e e' : Entry} (he : e'.ident = e.ident) (name : String)
    (port : Port Nat) (producer : Nat) (output : String) :
    (Plan.ofDiagram d').reference t e' name port producer output =
      (Plan.ofDiagram d).reference t e name port producer output := by
  have hlookup : ∀ d : Diagram, d.entries[producer]? =
      if producer < d.entries.length then some (d.entry producer) else none := by
    intro d
    split_ifs with hlt
    · simp [Diagram.entry, List.getD_eq_getElem?_getD, hlt]
    · simpa using hlt
  have hkind : (d'.design producer).outputKind = (d.design producer).outputKind :=
    (h.design producer).outputKind
  obtain ⟨-, hout, hvar, -⟩ := Entry.names_congr (h.ident producer)
  rw [Plan.reference, Plan.reference, h.outline.share_eq]
  simp only [show ∀ d : Diagram, (Plan.ofDiagram d).diagram = d from fun _ => rfl, hkind, he,
    hlookup, h.length]
  by_cases hlt : producer < d.entries.length
  · simp only [if_pos hlt, hout, hvar]
  · simp only [if_neg hlt]

theorem wire_eq (t : Stage) {e e' : Entry} (he : e'.ident = e.ident) (name : String)
    (port : Port Nat) :
    (Plan.ofDiagram d').wire t e' name port = (Plan.ofDiagram d).wire t e name port := by
  simp only [Plan.wire, (Entry.names_congr he).1, he, h.reference_eq t he]

/-- A node with the same sources is emitted as before in the other stage. -/
theorem emitNode_eq {i : Nat} (hloose : ∀ name, ¬ loose i name) :
    (Plan.ofDiagram d').emitNode stage.other i = (Plan.ofDiagram d).emitNode stage.other i := by
  have hinputs := (h.node i).inputs_eq hloose
  have hname : (d'.entry i).node.name = (d.entry i).node.name := (h.design i).name
  have hwire := h.wire_eq stage.other (h.ident i)
  have hdiagram : ∀ d : Diagram, (Plan.ofDiagram d).diagram = d := fun _ => rfl
  have houtputs := (h.outline.node i).outputs
  simp only [Plan.emitNode, h.outline.handOver_eq, hdiagram, hinputs, hname, hwire, h.ident,
    houtputs, h.outline.declaration_eq, h.outline.scope_eq (h.design i).code]

/-- A slot of the other stage is written as before, if its source is the same. -/
theorem emitSlot_eq {name : String} {slot slot' : Slot} (hst : slot'.stage = slot.stage)
    (heq : slot.stage = stage.other → slot' = slot ∧ ¬ loose 0 name) :
    (Plan.ofDiagram d').emitSlot stage.other name slot' =
      (Plan.ofDiagram d).emitSlot stage.other name slot := by
  by_cases hslot : slot.stage = stage.other
  · obtain ⟨rfl, hloose⟩ := heq hslot
    have hport : (Plan.ofDiagram d').diagram.root.node.inputs.get? name =
        (Plan.ofDiagram d).diagram.root.node.inputs.get? name := (h.node 0).get?_inputs hloose
    have hvalue : ∀ port, (Plan.ofDiagram d').slotValue stage.other name port =
        (Plan.ofDiagram d).slotValue stage.other name port := by
      intro port
      have href := h.reference_eq stage.other (h.ident 0)
      simp only [Plan.slotValue]
      simp only [Plan.ofDiagram, Diagram.root] at href ⊢
      simp only [href]
    simp only [Plan.emitSlot, hport, hvalue]
  · simp only [Plan.emitSlot, hst, ne_eq, hslot, not_false_eq_true, if_true]

/-- The other stage is emitted as before, if what is read there has the same sources. -/
theorem emit_eq (hnodes : ∀ i ∈ (Plan.ofDiagram d).stageOrder stage.other, ∀ name, ¬ loose i name)
    (hslots : ∀ name slot, (d.design 0).slots.get? name = some slot →
      slot.stage = stage.other → ¬ loose 0 name) :
    (Plan.ofDiagram d').emit stage.other = (Plan.ofDiagram d).emit stage.other := by
  have hblocks : ((Plan.ofDiagram d).stageOrder stage.other).mapM
      ((Plan.ofDiagram d').emitNode stage.other) =
        ((Plan.ofDiagram d).stageOrder stage.other).mapM
          ((Plan.ofDiagram d).emitNode stage.other) :=
    mapM_congr_forall₂ (R := Eq) (List.forall₂_refl _) fun i hi j hij =>
      hij ▸ h.emitNode_eq (hnodes i hi)
  have hwrites : (d'.design 0).slots.entries.mapM
      (fun slot => (Plan.ofDiagram d').emitSlot stage.other slot.1 slot.2) =
        (d.design 0).slots.entries.mapM
          (fun slot => (Plan.ofDiagram d).emitSlot stage.other slot.1 slot.2) := by
    refine mapM_congr_forall₂ (h.design 0).slots ?_
    rintro ⟨name, slot⟩ hm ⟨name', slot'⟩ ⟨hname, hst, heq⟩
    obtain rfl : name' = name := hname
    exact h.emitSlot_eq hst fun hslot => ⟨heq hslot,
      hslots name' slot ((Table.get?_eq_some_iff _ _ _).2 hm) hslot⟩
  have hroot : ∀ d : Diagram, (Plan.ofDiagram d).diagram.root.node.design = d.design 0 :=
    fun _ => rfl
  simp only [Plan.emit, h.outline.stageOrder_eq, h.outline.uniform?_eq, h.outline.varyings_eq,
    h.headers_eq, hblocks, hroot]
  rw [hwrites]

end Diagram.DiffersIn

/-! ## Stores -/

namespace Walk

variable (w : Walk) (s : Store) (root : NodeId) (stage : Stage)

/-- An instance takes part in a stage by its share, the root by a slot that it has in the stage. -/
def TakesPart (n : NodeId) : Prop :=
  (w.share n).stages.contains stage = true ∨
    n = root ∧ ∃ name slot, (s.design root).slots.get? name = some slot ∧ slot.stage = stage

/-- Nothing of the other stage reads the input: its instance takes no part in that stage, or it is
the input of a slot of the root. -/
def Loose (n : NodeId) (name : String) : Prop :=
  ¬ w.TakesPart s root stage.other n ∨
    n = root ∧ ∃ slot, (s.design root).slots.get? name = some slot ∧ slot.stage = stage

end Walk

/-- What the root reaches differs in one stage at most: in bodies, headers and slots of the stage,
and in literals and raw code that the other stage does not read. -/
def Store.DiffersIn (stage : Stage) (s : Store) (root : NodeId) (s' : Store) : Prop :=
  ∀ w, Walk.discover s root = .ok w → ∀ n ∈ w.ids,
    (s.get n).toNode.DiffersIn stage (w.Loose s root stage n) (s'.get n).toNode

namespace Walk

variable {stage : Stage} {s s' : Store} {root : NodeId} {w : Walk}

/-- The inputs of a number that the other stage does not read. -/
def LooseAt (w : Walk) (s : Store) (root : NodeId) (stage : Stage) (i : Nat) (name : String) :
    Prop :=
  ∃ n ∈ w.ids, w.ids.idxOf n = i ∧ w.Loose s root stage n name

/-- A number stands for one instance in walks that list the same, or for none. -/
theorem Explores.entry_cases {w' : Walk} (hw : Explores s root w) (hw' : Explores s' root w')
    (hids : w'.ids = w.ids) (i : Nat) :
    (∃ n ∈ w.ids, w.ids.idxOf n = i ∧ w.diagram.entry i = entryIn s w.ids n ∧
      w'.diagram.entry i = entryIn s' w.ids n) ∨
    (w.diagram.entry i = default ∧ w'.diagram.entry i = default) := by
  by_cases hi : i < w.ids.length
  · obtain ⟨n, hn, rfl⟩ := hw.exists_idxOf (hw.length_entries ▸ hi)
    have hentry' := hw'.entry_idxOf (hids ▸ hn)
    rw [hids] at hentry'
    exact .inl ⟨n, hn, rfl, hw.entry_idxOf hn, hentry'⟩
  · have hout : ∀ d : Diagram, d.entries.length = w.ids.length → d.entry i = default :=
      fun d hl => by simp [Diagram.entry, List.getD_eq_getElem?_getD, hl ▸ not_lt.1 hi]
    exact .inr ⟨hout _ hw.length_entries, hout _ (hids ▸ hw'.length_entries)⟩

theorem Explores.differsIn {w' : Walk} (hw : Explores s root w) (hw' : Explores s' root w')
    (hids : w'.ids = w.ids) (horder : w'.diagram.order = w.diagram.order)
    (hnode : ∀ n ∈ w.ids,
      (s.get n).toNode.DiffersIn stage (w.Loose s root stage n) (s'.get n).toNode) :
    w.diagram.DiffersIn stage (w.LooseAt s root stage) w'.diagram := by
  refine ⟨by rw [hw.length_entries, hw'.length_entries, hids], horder, fun i => ?_, fun i => ?_⟩
  · rcases hw.entry_cases hw' hids i with ⟨n, hn, -, he, he'⟩ | ⟨he, he'⟩
    · rw [he, he']
      simp only [entryIn, identIn, Store.design, (hnode n hn).design.name]
    · rw [he, he']
  · rcases hw.entry_cases hw' hids i with ⟨n, hn, hi, he, he'⟩ | ⟨he, he'⟩
    · rw [he, he']
      exact ((hnode n hn).map w.ids.idxOf).mono fun name hl => ⟨n, hn, hi, hl⟩
    · rw [he, he']
      exact .refl _ _ _

/-- The walks number the same instances in the same way. -/
theorem discover_differsIn (h : s.DiffersIn stage root s') (hd : discover s root = .ok w) :
    ∃ w', discover s' root = .ok w' ∧
      w.diagram.DiffersIn stage (w.LooseAt s root stage) w'.diagram := by
  have hw := discover_ok hd
  have hnode := h w hd
  have hrenames : Search.Renames id (fun n => (s.get n).producers)
      (fun n => (s'.get n).producers) root := by
    refine ⟨Set.injOn_id _, fun n hn => ?_⟩
    rw [List.map_id]
    exact (hnode n ((hw.mem_ids n).2 hn)).outline.producers
  have hrun := Search.run_map hrenames s.mem_heldIds s.length_heldIds s'.mem_heldIds
    s'.length_heldIds
  rw [discover_eq_outcome] at hd
  rcases hr : Search.run (fun n => (s.get n).producers) (s.size + 1) root with c | r
  · rw [hr] at hd
    cases hd
  rw [hr] at hd hrun
  cases hd
  have hd' : discover s' root = outcome s' (.ok r) := by
    rw [discover_eq_outcome]
    simpa [Search.mapResult, Search.map] using congrArg (outcome s') hrun
  exact ⟨_, hd', hw.differsIn (discover_ok hd') rfl rfl hnode⟩

end Walk

namespace Store

variable {stage : Stage} {s s' : Store} {root : NodeId} {shader shader' : Shader}

/-- If graphs differ in one stage only and both compile, the source of the other stage is the same,
and so are the bound values. -/
theorem stages_isolated (h : s.DiffersIn stage root s') (hc : s.compile root = .ok shader)
    (hc' : s'.compile root = .ok shader') :
    shader'.source stage.other = shader.source stage.other ∧
      shader'.uniforms = shader.uniforms := by
  obtain ⟨hmaster, w, hd, hplan⟩ := (compile_eq_ok_iff _ _ _).1 hc
  obtain ⟨-, w', hd', hplan'⟩ := (compile_eq_ok_iff _ _ _).1 hc'
  obtain ⟨w'', hd'', hdiffers⟩ := Walk.discover_differsIn h hd
  cases hd'.symm.trans hd''
  obtain ⟨-, -, hv, hf, hu⟩ := (Plan.compile_eq_ok_iff _ _).1 hplan
  obtain ⟨-, -, hv', hf', hu'⟩ := (Plan.compile_eq_ok_iff _ _).1 hplan'
  have hw := Walk.discover_ok hd
  have hemit := hdiffers.emit_eq (fun i hi name hl => ?_) fun name slot hslot hst hl => ?_
  · refine ⟨?_, by rw [hu, hu', hdiffers.outline.uniforms_eq]⟩
    cases stage with
    | vertex =>
      rw [Stage.other, hf, hf'] at hemit
      rw [Stage.other, Shader.source, Shader.source, Except.ok.inj hemit]
    | fragment =>
      rw [Stage.other, hv, hv'] at hemit
      rw [Stage.other, Shader.source, Shader.source, Except.ok.inj hemit]
  · -- a node of the other stage takes part there, and the root is never one
    obtain ⟨-, hpart, hinner⟩ := Plan.mem_stageOrder.1 hi
    obtain ⟨n, hn, rfl, hout | ⟨rfl, -⟩⟩ := hl
    · exact hout (.inl hpart)
    · rw [show (Plan.ofDiagram w.diagram).diagram = w.diagram from rfl, hw.design_idxOf hn,
        hmaster] at hinner
      cases hinner
  · obtain ⟨n, hn, hi, hl⟩ := hl
    obtain rfl : n = root := (List.idxOf_inj hn).1 (hi.trans hw.idxOf_root.symm)
    rw [← hi, hw.design_idxOf hn] at hslot
    rcases hl with hout | ⟨-, slot', hslot', hst'⟩
    · exact hout (.inr ⟨rfl, name, slot, hslot, hst⟩)
    · obtain rfl : slot = slot' := Option.some.inj (hslot.symm.trans hslot')
      exact stage.other_ne (hst.symm.trans hst')

end Store

section Lamp

open Library

/-- A node with code in both stages and a constant that the fragment stage reads, with some of the
fragment code left open. -/
def lamp (tint : Source NodeId) (header body : String) (slot : Slot) : Store :=
  let shade : Template := Node.named "Shade"
    |>.input "value" ((Port.ofKind .color).wired tint)
    |>.output "value" .color "in_value"
  let wave : Template := Node.named "Wave"
    |>.input "time" ((Port.ofKind .float).wired (.edge ⟨0⟩ "value"))
    |>.output "value" .vector3 "position"
    |>.header .fragment header
    |>.body .vertex "out_value *= in_time;"
    |>.body .fragment body
  let material : Template := Node.named "Material"
    |>.slot "position" ((Port.ofKind .vector3).wired (.edge ⟨2⟩ "value"))
      (.plain .vertex "csm_Position")
    |>.slot "color" ((Port.ofKind .color).wired (.edge ⟨1⟩ "value")) slot
    |>.slot "glow" ((Port.ofKind .vector3).wired (.edge ⟨2⟩ "value"))
      (.plain .fragment "csm_Emissive")
  ⟨#[⟨timeTemplate, none⟩, ⟨shade, none⟩, ⟨wave, none⟩, ⟨material, none⟩]⟩

def lampDim : Store :=
  lamp (.literal (.color (.splat .zero))) "" "out_value *= 0.5;" (.plain .fragment "gl_FragColor")

def lampBright : Store :=
  lamp (.raw "tint()") "vec3 tint();" "out_value = tint();"
    ⟨"csm_DiffuseColor", .fragment, solidValue⟩

theorem lamp_differsIn : lampDim.DiffersIn .fragment ⟨3⟩ lampBright := by
  intro w hd n hn
  have hshade : (Walk.discover lampDim ⟨3⟩).toOption.map
      (fun w => (w.share ⟨1⟩).stages.vertex) = some false := by decide +kernel
  rw [hd] at hshade
  have hloose : w.Loose lampDim ⟨3⟩ .fragment ⟨1⟩ "value" := by
    refine .inl ?_
    rintro (hpart | ⟨hroot, -⟩)
    · exact Bool.false_ne_true ((Option.some.inj hshade).symm.trans hpart)
    · cases hroot
  match n with
  | ⟨1⟩ =>
    refine ⟨.refl _ _, .cons ⟨rfl, rfl, rfl, rfl, .inr ⟨hloose, ?_⟩⟩ .nil⟩
    exact ⟨_, _, rfl, rfl, rfl, rfl⟩
  | ⟨2⟩ => exact ⟨⟨rfl, rfl, rfl, rfl, rfl, rfl, rfl, .nil⟩, .refl (fun _ => .refl _) _⟩
  | ⟨3⟩ =>
    refine ⟨⟨rfl, rfl, rfl, rfl, rfl, rfl, rfl, ?_⟩, .refl (fun _ => .refl _) _⟩
    refine .cons ⟨rfl, rfl, fun _ => rfl⟩ (.cons ⟨rfl, rfl, fun h => ?_⟩
      (.cons ⟨rfl, rfl, fun _ => rfl⟩ .nil))
    cases h
  | ⟨0⟩ => exact .refl _ _ _
  | ⟨n + 4⟩ => exact .refl _ _ _

theorem stages_isolated_lamp : ∃ dim bright, lampDim.compile ⟨3⟩ = .ok dim ∧
    lampBright.compile ⟨3⟩ = .ok bright ∧ bright.fragment ≠ dim.fragment ∧
    bright.source .vertex = dim.source .vertex ∧ bright.uniforms = dim.uniforms := by
  have hok : (lampDim.compile ⟨3⟩).toBool = true ∧ (lampBright.compile ⟨3⟩).toBool = true := by
    decide +kernel
  have hne : (lampBright.compile ⟨3⟩).toOption.map Shader.fragment ≠
      (lampDim.compile ⟨3⟩).toOption.map Shader.fragment := by decide +kernel
  rcases hc : lampDim.compile ⟨3⟩ with e | dim
  · rw [hc] at hok
    cases hok.1
  rcases hc' : lampBright.compile ⟨3⟩ with e | bright
  · rw [hc'] at hok
    cases hok.2
  rw [hc, hc'] at hne
  obtain ⟨hsource, hvalues⟩ := Store.stages_isolated lamp_differsIn hc hc'
  exact ⟨dim, bright, rfl, rfl, fun h => hne (congrArg some h), hsource, hvalues⟩

end Lamp

end ShaderGraph
