import ShaderGraph.Proofs.Chaining

/-!
# Nodes that are ready

A node is ready if it can be emitted and all that it reads is ready (`Store.Ready`), so that no
cycle is below it. A master whose ports read ready nodes compiles (`Store.compiles_of_ready`).
Adding nodes leaves ready nodes as they are, and so does assembling a stack whose filters only wait
for the value that they are given; the tail is then ready as well (`Stack.Chains.gives_tail`).
-/

namespace ShaderGraph

/-! ## Words -/

/-- Whether a word that looks like an input or an output of a node is one. -/
def Design.names (d : Design) (inputs : List String) (word : String) : Bool :=
  match Reference.ofWord word with
  | .input port => inputs.contains port
  | .output output => d.outputs.contains output
  | _ => true

/-- Whether the code for both stages names nothing that the node lacks. -/
def Design.spelled (d : Design) (inputs : List String) : Bool :=
  Stage.all.all fun stage =>
    (d.codeIn stage).all fun code => (Glsl.words code).all (d.names inputs)

theorem Node.spells_of_names {ρ : Type} {n : Node ρ} {word : String}
    (h : n.design.names n.inputs.keys word = true) : n.Spells word := by
  unfold Design.names at h
  refine ⟨fun port hw => ?_, fun output hw => ?_⟩
  · rw [(Reference.ofWord_eq_input_iff word port).2 hw] at h
    simpa using h
  · rw [(Reference.ofWord_eq_output_iff word output).2 hw] at h
    exact (Table.contains_eq_true_iff _ _).1 h

theorem Node.spells_of_spelled {ρ : Type} {n : Node ρ}
    (h : n.design.spelled n.inputs.keys = true) (stage : Stage) :
    ∀ code ∈ n.design.codeIn stage, ∀ word ∈ Glsl.words code, n.Spells word := by
  simp only [Design.spelled, List.all_eq_true] at h
  have hstage : stage ∈ Stage.all := by cases stage <;> simp [Stage.all]
  exact fun code hcode word hword => spells_of_names (h stage hstage code hcode word hword)

/-! ## Ready nodes -/

namespace Store

/-- The node can be emitted. -/
structure Fit (s : Store) (n : NodeId) : Prop where
  held : s.Holds n
  inner : (s.design n).isMaster = false
  spelled : (s.design n).spelled (s.get n).inputs.keys = true
  port : ∀ name p, (name, p) ∈ (s.get n).inputs.entries →
    p.source.isSome = true ∧ p.validate s.design = .ok ()

/-- The node can be emitted, and all that it reads is ready. -/
inductive Ready (s : Store) : NodeId → Prop
  | intro {n : NodeId} : s.Fit n → (∀ m, s.Reads n m → s.Ready m) → s.Ready n

namespace Ready

variable {s : Store} {n m : NodeId}

theorem fit : s.Ready n → s.Fit n
  | intro hfit _ => hfit

theorem reads : s.Ready n → s.Reads n m → s.Ready m
  | intro _ hreads, h => hreads m h

theorem reaches (h : s.Ready n) (hm : s.Reaches n m) : s.Ready m := by
  induction hm with
  | refl => exact h
  | tail _ hr ih => exact ih.reads hr

theorem not_transGen (h : s.Ready n) : ¬ Relation.TransGen s.Reads n n := by
  induction h with
  | @intro n _ _ ih =>
    intro hcycle
    -- what the node reads first around the cycle is on the cycle itself
    obtain ⟨m, hr, hm⟩ := Relation.TransGen.head'_iff.1 hcycle
    exact ih m hr (Relation.TransGen.tail' hm hr)

theorem emittable (h : s.Ready n) (stage : Stage) : (s.get n).Emittable stage :=
  ⟨fun name p hm => (h.fit.port name p hm).1, Node.spells_of_spelled h.fit.spelled stage⟩

end Ready

/-- A master whose ports read nothing that is not ready compiles. -/
theorem compiles_of_ready {s : Store} {root : NodeId} (hmaster : (s.design root).isMaster = true)
    (hports : ∀ name p, (name, p) ∈ (s.get root).inputs.entries → p.Fits s.design)
    (htargets : ((s.design root).slots.entries.map fun entry => entry.2.target).Nodup)
    (hreads : ∀ m, s.Reads root m → s.Ready m) : ∃ shader, s.compile root = .ok shader := by
  have hreaches : ∀ n, s.Reaches root n → n = root ∨ s.Ready n := by
    intro n hn
    rcases Relation.ReflTransGen.cases_head hn with h | ⟨m, hr, hm⟩
    · exact .inl h.symm
    · exact .inr ((hreads m hr).reaches hm)
  have hroot : ¬ s.Ready root := fun h => by simpa [hmaster] using h.fit.inner
  have hacyclic : s.Acyclic root := by
    intro n hn hcycle
    rcases hreaches n hn with rfl | hready
    · obtain ⟨m, hr, hm⟩ := Relation.TransGen.head'_iff.1 hcycle
      exact hroot ((hreads m hr).reaches hm)
    · exact hready.not_transGen hcycle
  obtain ⟨w, hd⟩ := Walk.discover_isOk_iff.2 hacyclic
  have hw := Walk.discover_ok hd
  have hfit := hw.portsFit_iff.2 fun n hn name p hm => by
    rcases hreaches n hn with rfl | hready
    · exact hports name p hm
    · exact .inl (hready.fit.port name p hm)
  have hemit := hw.emittable_iff.2 fun n hn hinner stage _ => by
    rcases hreaches n ((hw.mem_ids n).1 hn) with rfl | hready
    · rw [hmaster] at hinner
      cases hinner
    · exact hready.emittable stage
  refine (s.compile_isOk_iff_walk root hd).2
    ⟨hmaster, hfit, hw.slotsApart_iff.2 ?_, fun stage => ?_⟩
  · rintro name slot name' slot' ⟨hm, -⟩ ⟨hm', -⟩ he
    exact congrArg Prod.fst (List.inj_on_of_nodup_map htargets hm hm' he)
  · exact (Plan.emit_isOk_iff hfit hw.wellFormed stage).2 (hemit stage)

/-! ## What stays ready -/

/-- Ready nodes are what they were. -/
structure Extends (s s' : Store) : Prop where
  size : s.size ≤ s'.size
  get : ∀ n, s.Ready n → s'.get n = s.get n

/-- Nodes are only added. -/
structure Grows (s s' : Store) : Prop where
  size : s.size ≤ s'.size
  get : ∀ n, s.Holds n → s'.get n = s.get n

end Store

/-- The port has a source that fits, and what it reads is ready. -/
structure Port.Served (s : Store) (p : Port NodeId) : Prop where
  source : p.source.isSome = true
  valid : p.validate s.design = .ok ()
  ready : ∀ producer output, p.edge? = some (producer, output) → s.Ready producer

namespace Store

variable {s s' : Store} {n : NodeId}

theorem ready_iff : s.Ready n ↔ s.Holds n ∧ (s.design n).isMaster = false ∧
    (s.design n).spelled (s.get n).inputs.keys = true ∧
    ∀ name p, (name, p) ∈ (s.get n).inputs.entries → p.Served s := by
  constructor
  · intro h
    refine ⟨h.fit.held, h.fit.inner, h.fit.spelled, fun name p hm => ?_⟩
    obtain ⟨hsource, hvalid⟩ := h.fit.port name p hm
    refine ⟨hsource, hvalid, fun producer output he => h.reads ?_⟩
    exact (Node.mem_producers _ _).2 ⟨name, output, p, hm, he⟩
  · rintro ⟨hheld, hinner, hspelled, hports⟩
    refine .intro ⟨hheld, hinner, hspelled, fun name p hm => ?_⟩ fun m hr => ?_
    · exact ⟨(hports name p hm).source, (hports name p hm).valid⟩
    · obtain ⟨name, output, p, hm, he⟩ := (Node.mem_producers _ _).1 hr
      exact (hports name p hm).ready m output he

namespace Extends

theorem design (h : s.Extends s') (hn : s.Ready n) : s'.design n = s.design n := by
  rw [Store.design, Store.design, h.get n hn]

theorem ready (h : s.Extends s') (hn : s.Ready n) : s'.Ready n := by
  induction hn with
  | @intro n hfit hreads ih =>
    have hready : s.Ready n := .intro hfit hreads
    have hget := h.get n hready
    refine .intro ⟨Nat.lt_of_lt_of_le hfit.held h.size, ?_, ?_, ?_⟩ fun m hr => ih m ?_
    · rw [h.design hready, hfit.inner]
    · rw [h.design hready, hget, hfit.spelled]
    · intro name p hm
      rw [hget] at hm
      refine ⟨(hfit.port name p hm).1, ?_⟩
      rw [← (hfit.port name p hm).2]
      refine p.validate_congr fun producer output he => h.design (hready.reads ?_)
      exact (Node.mem_producers _ _).2 ⟨name, output, p, hm, he⟩
    · rwa [Reads, hget] at hr

theorem served (h : s.Extends s') {p : Port NodeId} (hp : p.Served s) : p.Served s' := by
  refine ⟨hp.source, ?_, fun producer output he => h.ready (hp.ready producer output he)⟩
  rw [← hp.valid]
  exact p.validate_congr fun producer output he => h.design (hp.ready producer output he)

theorem trans {t : Store} (h : s.Extends t) (h' : t.Extends s') : s.Extends s' :=
  ⟨h.size.trans h'.size, fun n hn => (h'.get n (h.ready hn)).trans (h.get n hn)⟩

end Extends

namespace Grows

theorem refl (s : Store) : s.Grows s := ⟨le_refl _, fun _ _ => rfl⟩

theorem trans {t : Store} (h : s.Grows t) (h' : t.Grows s') : s.Grows s' :=
  ⟨h.size.trans h'.size, fun n hn =>
    (h'.get n (Nat.lt_of_lt_of_le hn h.size)).trans (h.get n hn)⟩

theorem toExtends (h : s.Grows s') : s.Extends s' := ⟨h.size, fun n hn => h.get n hn.fit.held⟩

theorem add (s : Store) (i : Instance) : s.Grows (s.add i).2 :=
  ⟨by simp [size_add], fun _ hn => get_add hn i⟩

end Grows

/-- The first output of a ready node is of some kinds. -/
structure Gives (kinds : Kind → Prop) (s : Store) (n : NodeId) : Prop where
  ready : s.Ready n
  output : ∃ output spec, (s.design n).primaryOutput = some output ∧
    (s.design n).outputs.get? output = some spec ∧ kinds spec.kind

theorem Gives.mono {kinds : Kind → Prop} (h : s.Gives kinds n) (hext : s.Extends s') :
    s'.Gives kinds n := by
  refine ⟨hext.ready h.ready, ?_⟩
  rw [hext.design h.ready]
  exact h.output

/-- An edge to the first output serves a port that takes values of its kinds. -/
theorem Gives.served {kinds : Kind → Prop} (h : s.Gives kinds n) {p : Port NodeId}
    (haccepts : ∀ kind, kinds kind → p.kind.accepts kind p.broadcast = true) :
    (p.wired (s.primaryEdge n)).Served s := by
  obtain ⟨output, spec, houtput, hspec, hkind⟩ := h.output
  rw [primaryEdge, houtput]
  refine ⟨rfl, Port.validate_edge hspec (haccepts _ hkind), fun producer o he => ?_⟩
  cases he
  exact h.ready

/-! ## Filters that wait for their value -/

/-- A filter of which only the primary input lacks a source. -/
structure Waits (kinds : Kind → Prop) (s : Store) (f : NodeId) : Prop extends
    Stack.Passes kinds s f where
  inner : (s.design f).isMaster = false
  spelled : (s.design f).spelled (s.get f).inputs.keys = true
  port : ∀ name p, (name, p) ∈ (s.get f).inputs.entries →
    if (s.get f).primaryInput = some name then p.source = none else p.Served s

namespace Waits

variable {kinds : Kind → Prop} {f : NodeId}

theorem not_ready (h : s.Waits kinds f) : ¬ s.Ready f := by
  intro hready
  obtain ⟨primary, p, hprimary, hp, -⟩ := h.takes
  have hm := (Table.get?_eq_some_iff _ _ _).1 hp
  have hnone := h.port primary p hm
  rw [if_pos hprimary] at hnone
  have hsome := (hready.fit.port primary p hm).1
  rw [hnone] at hsome
  cases hsome

theorem mono (h : s.Waits kinds f) (hext : s.Extends s') (hget : s'.get f = s.get f) :
    s'.Waits kinds f where
  toPasses := h.toPasses.congr hext.size hget
  inner := by
    rw [design, hget]
    exact h.inner
  spelled := by
    rw [design, hget]
    exact h.spelled
  port name p hm := by
    rw [hget] at hm ⊢
    have := h.port name p hm
    split_ifs at this ⊢
    · exact this
    · exact hext.served this

end Waits

/-- Nodes are added, a filter that waits among them. -/
structure Adds (kinds : Kind → Prop) (s : Store) (f : NodeId) (s' : Store) : Prop where
  grows : s.Grows s'
  fresh : ¬ s.Holds f
  waits : s'.Waits kinds f

theorem Adds.of_grows {kinds : Kind → Prop} {t : Store} {f : NodeId} (h : t.Adds kinds f s')
    (hgrows : s.Grows t) : s.Adds kinds f s' :=
  ⟨hgrows.trans h.grows, fun hf => h.fresh (Nat.lt_of_lt_of_le hf hgrows.size), h.waits⟩

end Store

/-! ## Added instances -/

/-- Instances of the template can be emitted once they are wired, and their first output is of some
kinds. -/
structure Node.Emits {ρ : Type} (kinds : Kind → Prop) (t : Node ρ) : Prop where
  inner : t.design.isMaster = false
  spelled : t.design.spelled t.inputs.keys = true
  gives : ∃ output spec, t.design.primaryOutput = some output ∧
    t.design.outputs.get? output = some spec ∧ kinds spec.kind

/-- Properties wire the inputs of a template and leave the rest of it. -/
theorem Node.Emits.withProps {kinds : Kind → Prop} {t t' : Template} (h : t.Emits kinds)
    {props : Props} (hprops : t.withProps props = .ok t') : t'.Emits kinds := by
  obtain ⟨hinner, hspelled, hgives⟩ := h
  rw [← design_withProps hprops] at hinner hspelled hgives
  rw [← keys_withProps hprops] at hspelled
  exact ⟨hinner, hspelled, hgives⟩

namespace Store

variable {kinds : Kind → Prop} {s : Store} {t : Template} (h : t.Emits kinds)
include h

theorem gives_add (hports : ∀ input ∈ t.inputs.entries, input.2.Served s) :
    (s.add ⟨t, none⟩).2.Gives kinds ⟨s.size⟩ := by
  have hget := s.get_add_self ⟨t, none⟩
  refine ⟨ready_iff.2 ⟨?_, ?_, ?_, fun name p hm => ?_⟩, ?_⟩
  · rw [Holds, size_add]
    exact Nat.lt_succ_self _
  · rw [design, hget]
    exact h.inner
  · rw [design, hget]
    exact h.spelled
  · rw [hget] at hm
    exact (Grows.add s _).toExtends.served (hports (name, p) hm)
  · rw [design, hget]
    exact h.gives

/-- A filter waits from the beginning, if its primary input has no source. -/
theorem waits_add {primary : String} {port : Port NodeId} (hprimary : t.primaryInput = some primary)
    (hport : t.inputs.get? primary = some port) (hnone : port.source = none)
    (haccepts : ∀ kind, kinds kind → port.kind.accepts kind port.broadcast = true)
    (hports : ∀ input ∈ t.inputs.entries, input.1 ≠ primary → input.2.Served s) :
    (s.add ⟨t, none⟩).2.Waits kinds ⟨s.size⟩ := by
  have hget := s.get_add_self ⟨t, none⟩
  refine ⟨⟨?_, by rw [hget], ?_, ?_⟩, ?_, ?_, fun name p hm => ?_⟩
  · rw [Holds, size_add]
    exact Nat.lt_succ_self _
  · rw [hget]
    exact ⟨primary, port, hprimary, hport, haccepts⟩
  · rw [design, hget]
    exact h.gives
  · rw [design, hget]
    exact h.inner
  · rw [design, hget]
    exact h.spelled
  · rw [hget] at hm ⊢
    split_ifs with hname
    · rw [← Table.get?_eq_some_iff] at hm
      rw [hprimary, Option.some.injEq] at hname
      rw [← hname, hport] at hm
      cases hm
      exact hnone
    · rw [hprimary, Option.some.injEq] at hname
      exact (Grows.add s _).toExtends.served (hports (name, p) hm fun he => hname he.symm)

end Store

/-! ## Stacks -/

namespace Stack

variable {kinds : Kind → Prop} {s : Stack} {props : Props} {before after : Store}
  {head tail : NodeId}

namespace Chains

variable (h : s.Chains props before head tail after)
  (hwaits : ∀ f ∈ s.filters, before.Waits kinds f)
include h hwaits

theorem toExtends : before.Extends after where
  size := by rw [h.size]; omega
  get n hn := h.others n hn.fit.held fun hm => (hwaits n hm).not_ready hn

/-- A filter is ready if what comes before it is. -/
theorem gives_of_follows {a f : NodeId} (hf : f ∈ s.filters) (hfollows : before.Follows after a f)
    (ha : after.Ready a) : after.Gives kinds f := by
  have hext := h.toExtends hwaits
  have hwait := hwaits f hf
  obtain ⟨primary, port, output, hprimary, hport, -, hvalid, hget⟩ := hfollows
  have hdesign : after.design f = before.design f := by
    rw [Store.design, hget]
    rfl
  refine ⟨Store.ready_iff.2 ⟨Nat.lt_of_lt_of_le hwait.held hext.size, ?_, ?_, ?_⟩, ?_⟩
  · rw [hdesign, hwait.inner]
  · rw [hdesign, hget, Instance.wired, Table.keys_insert, if_pos (Table.mem_keys_of_get? hport)]
    exact hwait.spelled
  · intro name p hm
    rw [hget, Instance.wired, ← Table.get?_eq_some_iff, Table.get?_insert] at hm
    split_ifs at hm with hname
    · cases hm
      refine ⟨rfl, hvalid, fun producer o he => ?_⟩
      cases he
      exact ha
    · have hp := hwait.port name p ((Table.get?_eq_some_iff _ _ _).1 hm)
      rw [hprimary, if_neg fun he => hname (Option.some.inj he)] at hp
      exact hext.served hp
  · rw [hdesign]
    exact hwait.gives

theorem gives_of_mem (hhead : after.Gives kinds head) :
    ∀ n ∈ head :: s.filters, after.Gives kinds n := by
  have hchain : ∀ (l : List NodeId) (a : NodeId), (∀ f ∈ l, f ∈ s.filters) →
      (a :: l).IsChain (before.Follows after) → after.Gives kinds a →
        ∀ n ∈ a :: l, after.Gives kinds n := by
    intro l
    induction l with
    | nil => exact fun a _ _ ha => List.forall_mem_singleton.2 ha
    | cons f l ih =>
      intro a hl hc ha
      obtain ⟨hfollows, hc⟩ := List.isChain_cons_cons.1 hc
      have hf := h.gives_of_follows hwaits (hl f List.mem_cons_self) hfollows ha.ready
      exact List.forall_mem_cons.2
        ⟨ha, ih f (fun g hg => hl g (List.mem_cons_of_mem f hg)) hc hf⟩
  exact hchain s.filters head (fun _ hf => hf) h.chain hhead

theorem gives_head (hspelled : s.head.design.spelled s.inputs.keys = true)
    (hports : ∀ name p, (name, p) ∈ s.inputs.entries →
      (p.given (props.source? name)).Served before)
    (hgives : ∃ output spec, s.outputs.keys.head? = some output ∧
      s.outputs.get? output = some spec ∧ kinds spec.kind) : after.Gives kinds head := by
  refine ⟨Store.ready_iff.2 ⟨?_, ?_, ?_, ?_⟩, ?_⟩
  · rw [Store.Holds, h.size, h.head_fresh]
    exact Nat.lt_succ_of_lt (Nat.lt_succ_self _)
  · rw [h.head_design]
    rfl
  · rw [h.head_design, h.head_keys]
    exact hspelled
  · intro name p hm
    have hname : name ∈ s.inputs.keys := h.head_keys ▸ Table.mem_keys_of_mem hm
    obtain ⟨⟨_, p'⟩, hm', rfl⟩ := List.mem_map.1 hname
    have hget := h.head_port _ p' ((Table.get?_eq_some_iff _ _ _).2 hm')
    rw [(Table.get?_eq_some_iff _ _ _).2 hm] at hget
    cases hget
    exact (h.toExtends hwaits).served (hports _ _ hm')
  · rw [h.head_design]
    exact hgives

/-- The tail is ready and gives what the last filter gives. -/
theorem gives_tail (hhead : after.Gives kinds head) : after.Gives kinds tail := by
  obtain ⟨last, output, spec, hlast, houtput, hspec, hentries, hdesign⟩ := h.tail_reads
  have hgives := h.gives_of_mem hwaits hhead last (List.mem_of_getLast? hlast)
  have hkind : kinds spec.kind := by
    obtain ⟨output', spec', houtput', hspec', hkind'⟩ := hgives.output
    rw [houtput] at houtput'
    cases houtput'
    rw [hspec] at hspec'
    cases hspec'
    exact hkind'
  refine ⟨Store.ready_iff.2 ⟨?_, ?_, ?_, ?_⟩, "value", ⟨spec.kind, some "in_value"⟩, ?_, ?_, hkind⟩
  · rw [Store.Holds, h.size, h.tail_fresh]
    exact Nat.lt_succ_self _
  · rw [hdesign]
    rfl
  · have hwords : Glsl.words "in_value" = ["in_value"] := by decide +kernel
    have hcode : ∀ stage, (after.design tail).codeIn stage = ["in_value"] := by
      rw [hdesign]
      intro stage
      cases stage <;> rfl
    have hknown : (after.design tail).names (after.get tail).inputs.keys "in_value" = true := by
      rw [Table.keys, hentries]
      rfl
    simp [Design.spelled, Stage.all, hcode, hwords, hknown]
  · intro name p hm
    rw [hentries, List.mem_singleton] at hm
    cases hm
    have haccepts : spec.kind.accepts spec.kind false = true := by
      cases spec.kind <;> rfl
    refine ⟨rfl, Port.validate_edge (p := .ofKind spec.kind) hspec haccepts, ?_⟩
    rintro producer o he
    cases he
    exact hgives.ready
  · rw [hdesign]
    rfl
  · rw [hdesign]
    rfl

end Chains

end Stack

end ShaderGraph
