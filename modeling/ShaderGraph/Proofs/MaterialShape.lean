import ShaderGraph.Proofs.Freshness
import ShaderGraph.Proofs.MaterialNumbers
import ShaderGraph.Proofs.StageOrders
import ShaderGraph.Proofs.Timekeeping

/-!
# The shape of the demo shader

The vertex stage emits the animation from its position to the tail of the stack, each clock right
before the filter that reads it, and each filter reads the variable of what stands before it. The
clocks have a uniform each, in the order of the filters. So the shader of a material has the same
shape for filters of any number (`Material.build_shape`).
-/

namespace ShaderGraph

/-! ## Titles -/

/-- The text of a comment, with which the block of every node begins. -/
def Statement.title? : Statement → Option String
  | .comment text => some text
  | .declare _ _ _ | .block _ | .assign _ _ => none

def Entry.title (e : Entry) : String := s!"{e.node.name} ({e.ident})"

namespace Plan

variable {p : Plan} {stage : Stage}

theorem titles_scope {e : Entry} {wires : List Wire} {statements : List Statement}
    (h : e.scope stage wires = .ok statements) : statements.filterMap Statement.title? = [] := by
  rcases scope_eq_ok h with rfl | ⟨text, rfl⟩ <;> rfl

theorem titles_eq_nil {l : List Statement}
    (h : ∀ st ∈ l, ∃ target expr, st = .assign target expr) :
    l.filterMap Statement.title? = [] := by
  refine List.filterMap_eq_nil_iff.2 fun st hst => ?_
  obtain ⟨target, expr, rfl⟩ := h st hst
  rfl

theorem titles_block {i : Nat} {block : List Statement} (h : p.emitNode stage i = .ok block) :
    block.filterMap Statement.title? = [(p.diagram.entry i).title] := by
  obtain ⟨wires, outputs, scope, hw, ho, hs, rfl⟩ := (emitNode_eq_ok_iff stage i block).1 h
  have hdecls : (wires.flatMap Wire.statements ++ outputs).filterMap Statement.title? = [] := by
    refine List.filterMap_eq_nil_iff.2 fun st hst => ?_
    obtain ⟨_, _, _, rfl⟩ := declare_of_mem_inputs_outputs hw ho st hst
    rfl
  have hcomment : ∀ text (l : List Statement), (.comment text :: l).filterMap Statement.title? =
      text :: l.filterMap Statement.title? := fun _ _ => rfl
  rw [hcomment, List.filterMap_append, List.filterMap_append, hdecls, titles_scope hs,
    titles_eq_nil assign_of_mem_handOver]
  rfl

/-- A stage has one block for each node that is emitted in it, in order. -/
theorem titles_emit {source : StageSource} (h : p.emit stage = .ok source) :
    source.statements.filterMap Statement.title? =
      (p.stageOrder stage).map fun i => (p.diagram.entry i).title := by
  obtain ⟨nodes, slots, hn, hs, rfl⟩ := (emit_eq_ok_iff stage source).1 h
  rw [List.filterMap_append, titles_eq_nil (assign_of_mem_slots hs), List.append_nil,
    List.filterMap_flatten, ← List.flatMap_def, flatMap_of_mapM (fun _ _ => titles_block) hn,
    List.map_eq_flatMap]

end Plan

namespace Material

open Library

/-! ## Clocks -/

/-- The clocks of the animation. -/
def timeClock : Option String → Clock
  | none => .ofUniform "time"
  | some source => { Clock.ofUniform "time" with source := .shared source }

theorem clock_clockDesign (shared : Option String) :
    (clockDesign shared).clock = some (timeClock shared) := by
  rcases shared with _ | _ <;> rfl

variable {s : Store} {settings : AnimationSettings} {origin head tail diffuse master : NodeId}
  {ps : List (NodeId × NodeId)} {w : Walk} {rest later : List NodeId}

theorem Strung.design_clock {shared : Option String} {first : NodeId} {fs : List FilterSettings}
    (h : Strung s shared first fs ps) : ∀ n ∈ ps.map Prod.fst, s.design n = clockDesign shared :=
  List.forall_mem_map.2 fun p hp => by
    obtain ⟨f, _, hclocked⟩ := h.exists_clocked p hp
    rw [Store.design, hclocked.clock]

/-- What holds of all designs of the animation but those of the clocks. -/
theorem Animated.forall_design (h : Animated s settings origin head tail ps) (P : Design → Prop)
    (horigin : P geometryPositionTemplate.design) (hhead : P (headNode origin).design)
    (hfilter : ∀ f : FilterSettings, P f.design) (htail : P (tailNode tail).design) :
    ∀ n ∈ tail :: ((ps.map Prod.snd).reverse ++ [head, origin]), P (s.design n) := by
  have hfilters : ∀ n ∈ ps.map Prod.snd, P (s.design n) :=
    List.forall_mem_map.2 fun p hp => by
      obtain ⟨f, _, hclocked⟩ := h.strung.exists_clocked p hp
      rw [Store.design, hclocked.filter]
      exact (f.design_node _ _).symm ▸ hfilter f
  have htail' : s.design tail = (tailNode tail).design := (congrArg Node.design h.last).trans rfl
  have hhead' : s.design head = (headNode origin).design := congrArg (·.toNode.design) h.first
  have horigin' : s.design origin = geometryPositionTemplate.design :=
    congrArg (·.toNode.design) h.position
  simp only [List.forall_mem_cons, List.forall_mem_append, List.mem_reverse]
  exact ⟨htail' ▸ htail, hfilters, hhead' ▸ hhead, horigin' ▸ horigin, List.forall_mem_nil _⟩

/-- The only clocks below a material are those of the animation. -/
theorem Laid.clocksOf_ids (h : Laid s settings origin head tail diffuse master ps)
    (hl : Listed s w origin head tail diffuse master ps rest later) :
    clocksOf s.design w.ids = ps.map fun p => (p.1, timeClock settings.sharedClock) := by
  have hsplit : w.ids = (master :: tail :: ((ps.map Prod.snd).reverse ++ [head, origin])) ++
      ps.map Prod.fst ++ diffuse :: rest := by
    simp [hl.ids, frontIds]
  have hmaster : (s.design master).clock = none := by
    rw [h.design]
    rfl
  have hfront : ∀ n ∈ master :: tail :: ((ps.map Prod.snd).reverse ++ [head, origin]),
      (s.design n).clock = none :=
    List.forall_mem_cons.2 ⟨hmaster, h.forall_design (·.clock = none) rfl rfl
      FilterSettings.clock_design rfl⟩
  have hclocks : ∀ n ∈ ps.map Prod.fst,
      (s.design n).clock = some (timeClock settings.sharedClock) :=
    fun n hn => by rw [h.strung.design_clock n hn, clock_clockDesign]
  rw [hsplit, clocksOf_append, clocksOf_append, clocksOf_eq_nil hfront, clocksOf_eq_map hclocks,
    clocksOf_eq_nil fun n hn => h.untimed n (hl.reaches n (hl.perm.mem_iff.2 hn)), List.map_map,
    List.append_nil]
  rfl

theorem map_eq_map_range {α β : Type} {l : List α} {f : α → β} {g : Nat → β}
    (h : ∀ i a, l[i]? = some a → f a = g i) : l.map f = (List.range l.length).map g :=
  List.ext_getElem (by simp) fun i hi _ => by
    rw [List.getElem_map, List.getElem_map, List.getElem_range]
    exact h i _ (List.getElem?_eq_getElem _)

/-- The numbers of the clocks follow the order of the filters. -/
theorem Laid.clocks_eq (h : Laid s settings origin head tail diffuse master ps)
    (hw : Walk.Explores s master w)
    (hl : Listed s w origin head tail diffuse master ps rest later) :
    w.diagram.clocks = (List.range settings.filters.length).map fun i =>
      (settings.filters.length + 4 + i, timeClock settings.sharedClock) := by
  rw [hw.clocks_eq, h.clocksOf_ids hl, List.map_map, ← h.strung.length_eq]
  refine map_eq_map_range fun i p hi => ?_
  rw [Function.comp_apply, hw.idxOf_eq (hl.placed.clock i p hi)]

section Clocks

variable {d : Diagram} (hd : d.WellFormed) (h : Numbered settings d)
  (hclocks : d.clocks = (List.range settings.filters.length).map fun i =>
    (settings.filters.length + 4 + i, timeClock settings.sharedClock))
include hd h hclocks

theorem Numbered.uniformName_clock {i : Nat} (hi : i < settings.filters.length) :
    (d.entry (settings.filters.length + 4 + i)).uniformName (timeClock settings.sharedClock) =
      s!"u_Time_{settings.filters.length + 4 + i}_time" := by
  have hm : (settings.filters.length + 4 + i, timeClock settings.sharedClock) ∈ d.clocks := by
    rw [hclocks]
    exact List.mem_map_of_mem (List.mem_range.2 hi)
  have hlt := List.mem_range.1 (mem_clocksOf.1 hm).1
  have hname : (d.entry (settings.filters.length + 4 + i)).node.name = "Time" := by
    rw [h.clock i hi]
    rcases settings.sharedClock with _ | _ <;> rfl
  have hstem : Glsl.stem "Time" = "Time" := by decide
  have huniform : (timeClock settings.sharedClock).uniform = "time" := by
    rcases settings.sharedClock with _ | _ <;> rfl
  have htext : ∀ number : String, "u_" ++ ("Time" ++ "_" ++ number) ++ "_" ++ "time" =
      "u_Time_" ++ number ++ "_time" := fun number => String.toList_inj.1 (by simp)
  rw [Entry.uniformName, hd.ident_eq _ hlt, hname, ident, hstem, huniform]
  exact htext _

theorem Numbered.uniform?_clock {i : Nat} (hi : i < settings.filters.length) :
    (Plan.ofDiagram d).uniform? (settings.filters.length + 4 + i) =
      some s!"u_Time_{settings.filters.length + 4 + i}_time" := by
  have hclock : (d.entry (settings.filters.length + 4 + i)).node.design.clock =
      some (timeClock settings.sharedClock) := by
    rw [h.clock i hi, clock_clockDesign]
  change Option.map (d.entry _).uniformName (d.entry _).node.design.clock = _
  rw [hclock, Option.map_some, h.uniformName_clock hd hclocks hi]

/-- The values are those of the clocks, before any time has passed. -/
theorem Numbered.values_uniforms : (Plan.ofDiagram d).uniforms.values.entries =
    (List.range settings.filters.length).map fun i =>
      (s!"u_Time_{settings.filters.length + 4 + i}_time", .float .zero) := by
  obtain ⟨keys, -, -, hshows⟩ := Plan.shows_uniforms hd
  rw [hshows.values, hclocks, List.map_map]
  refine List.map_congr_left fun i hi => ?_
  rw [Function.comp_apply, Diagram.clockName, h.uniformName_clock hd hclocks (List.mem_range.1 hi)]

omit h in
/-- Each clock has a source of its own, or all have one. -/
theorem sourceCount_uniforms : (Plan.ofDiagram d).uniforms.sourceCount =
    if settings.sharedClock = none then settings.filters.length
    else if 0 < settings.filters.length then 1 else 0 := by
  obtain ⟨keys, hnodup, hmem, hshows⟩ := Plan.shows_uniforms hd
  rw [hshows.sourceCount_eq, length_keys hnodup hmem d.nodup_numbers, hclocks]
  rcases settings.sharedClock with _ | name
  · have hown : (timeClock none).source = .own := rfl
    have hshared : (timeClock none).sharedName? = none := rfl
    simp [List.filterMap_map, Function.comp_def, hown, hshared]
  · have hown : (timeClock (some name)).source ≠ .own := nofun
    have hshared : (timeClock (some name)).sharedName? = some name := rfl
    rcases hn : settings.filters.length with _ | n
    · rfl
    · have hcard : (List.replicate (n + 1) name).toFinset.card = 1 := by
        rw [List.toFinset_replicate_of_ne_zero n.succ_ne_zero, Finset.card_singleton]
      simpa [List.filterMap_map, Function.comp_def, hown, hshared] using hcard

end Clocks

/-! ## The vertex stage -/

theorem Animated.isMaster_eq (h : Animated s settings origin head tail ps) :
    ∀ n ∈ tail :: ((ps.map Prod.snd).reverse ++ [head, origin] ++ ps.map Prod.fst),
      (s.design n).isMaster = false := by
  have hfront := h.forall_design (·.isMaster = false) rfl rfl FilterSettings.isMaster_design rfl
  rw [List.forall_mem_cons] at hfront ⊢
  refine ⟨hfront.1, List.forall_mem_append.2 ⟨hfront.2, fun n hn => ?_⟩⟩
  rw [h.strung.design_clock n hn]
  rcases settings.sharedClock with _ | _ <;> rfl

/-- The animation takes part in the vertex stage, since the master reads it there. -/
theorem Laid.contains_vertex (h : Laid s settings origin head tail diffuse master ps)
    (hw : Walk.Explores s master w) :
    ∀ n ∈ tail :: ((ps.map Prod.snd).reverse ++ [head, origin] ++ ps.map Prod.fst),
      (w.share n).stages.contains .vertex = true := by
  have hposition : (s.get master).Edge "position" tail "value" := ⟨_, by
    rw [h.entries]
    exact .head _, rfl⟩
  have hreads : (s.design master).ReadsIn "position" (w.share master).stages .vertex := by
    rw [h.design]
    exact ⟨.plain .vertex "csm_Position", rfl, rfl⟩
  have hfound : tail ∈ w.ids :=
    hw.producer_mem hw.root_mem ((Node.mem_producers _ _).2 ⟨_, _, hposition⟩)
  have hall := h.spans.forall_mem
    (P := fun n => n ∈ w.ids ∧ (w.share n).stages.contains .vertex = true)
    (List.forall_mem_singleton.2 ⟨hfound, hw.contains_vertex hw.root_mem hposition hreads⟩)
    fun n hn ⟨hmem, hpart⟩ m hm => by
      obtain ⟨name, o, he⟩ := (Node.mem_producers _ _).1 hm
      refine ⟨hw.producer_mem hmem hm, hw.contains_vertex hmem he ?_⟩
      rw [Design.ReadsIn, h.isMaster_eq n hn]
      exact hpart
  exact fun n hn => (hall n hn).2

theorem map_pairIds (hw : Walk.Explores s master w)
    (hp : Placed ps.length w.ids origin head tail diffuse master ps) :
    (pairIds ps).map w.ids.idxOf =
      (List.range ps.length).flatMap fun i => [ps.length + 4 + i, ps.length + 1 - i] := by
  rw [pairIds, List.map_flatMap, List.flatMap_def, List.flatMap_def]
  congr 1
  refine map_eq_map_range fun i p hi => ?_
  simp only [List.map_cons, List.map_nil, hw.idxOf_eq (hp.clock i p hi), hw.idxOf_eq (hp.filter hi)]

/-- The vertex stage emits the animation, and after it nodes below the colour. -/
theorem Laid.stageOrder_vertex (h : Laid s settings origin head tail diffuse master ps)
    (hw : Walk.Explores s master w)
    (hl : Listed s w origin head tail diffuse master ps rest later) :
    ∃ below, (Plan.ofDiagram w.diagram).stageOrder .vertex = (ps.length + 3) :: (ps.length + 2) ::
        ((List.range ps.length).flatMap fun i => [ps.length + 4 + i, ps.length + 1 - i]) ++
          1 :: below ∧
      ∀ j ∈ below, 2 * ps.length + 4 ≤ j ∧
        Search.Reaches w.diagram.producers (2 * ps.length + 4) j := by
  have hp := hl.placed
  let listed (n : NodeId) : Bool :=
    (w.share n).stages.contains .vertex && !(s.design n).isMaster
  have hfront : ([origin, head] ++ pairIds ps ++ [tail]).filter listed =
      [origin, head] ++ pairIds ps ++ [tail] := List.filter_eq_self.2 fun n hn => by
    have hn' := h.spans.perm.mem_iff.1 hn
    rw [Bool.and_eq_true, Bool.not_eq_true']
    exact ⟨h.contains_vertex hw n hn', h.isMaster_eq n hn'⟩
  refine ⟨((later ++ [master]).filter listed).map w.ids.idxOf, ?_, List.forall_mem_map.2 ?_⟩
  · rw [hw.stageOrder_eq, Walk.emitted, hl.topological, List.filter_append, hfront, List.map_append,
      List.map_append, List.map_append, map_pairIds hw hp]
    simp [hw.idxOf_eq hp.origin, hw.idxOf_eq hp.first, hw.idxOf_eq hp.tail, listed]
  · intro n hn
    obtain ⟨hn, hlisted⟩ := List.mem_filter.1 hn
    rcases List.mem_append.1 hn with hn | hn
    · have hsplit : w.ids = (master :: tail :: ((head :: ps.map Prod.snd).reverse ++
          origin :: ps.map Prod.fst)) ++ diffuse :: rest := by
        simp [hl.ids, frontIds]
      have hlength : (master :: tail :: ((head :: ps.map Prod.snd).reverse ++
          origin :: ps.map Prod.fst)).length = 2 * ps.length + 4 := by
        simp
        omega
      have hnodup := hw.nodup
      rw [hsplit] at hnodup
      have hapart := fun hm => (List.nodup_append.1 hnodup).2.2 n hm n (hl.perm.mem_iff.1 hn) rfl
      have hfound := List.mem_of_getElem? hp.diffuse
      rw [← hw.idxOf_eq hp.diffuse]
      refine ⟨?_, hw.reaches_idxOf hfound (hl.reaches n hn)⟩
      rw [hw.idxOf_eq hp.diffuse, hsplit, List.idxOf_append_of_notMem hapart, hlength]
      exact Nat.le_add_right _ _
    · have hmaster : (s.design n).isMaster = true := by
        rw [List.mem_singleton.1 hn, h.design]
        rfl
      change ((w.share n).stages.contains .vertex && !(s.design n).isMaster) = true at hlisted
      rw [hmaster, Bool.not_true, Bool.and_false] at hlisted
      cases hlisted

/-! ## The shape -/

/-- The block of a node stands in the vertex stage. It has the variable of another node in the place
of its input `a`, and starts its output with it. -/
structure Follows (d : Diagram) (shader : Shader) (i previous : Nat) : Prop where
  block : ∃ earlier block later, shader.vertex.statements = earlier ++ block ++ later ∧
    (Plan.ofDiagram d).emitNode .vertex i = .ok block
  substitutes : (Plan.ofDiagram d).Substitutes .vertex i "a"
    ((d.entry previous).outputName "value")
  declares : shader.Declares .vertex "vec3" ((d.entry i).outputName "value")
    ((d.entry previous).outputName "value")

section Follows

variable {d : Diagram} (h : Numbered settings d)
include h

theorem Numbered.outputs_filter {i : Nat} (hi : i < settings.filters.length) :
    (d.design (settings.filters.length + 1 - i)).outputs =
      Table.empty.insert "value" ⟨.vector3, some "in_a"⟩ := by
  rw [Diagram.design, h.filter i _ (List.getElem?_eq_getElem hi), FilterSettings.design_node,
    FilterSettings.outputs_design]

theorem Numbered.outputs_stack {i : Nat} (hi : i < settings.filters.length) : ∃ e,
    (d.design (settings.filters.length + 2 - i)).outputs.get? "value" =
      some ⟨.vector3, some e⟩ := by
  rcases i with _ | i
  · refine ⟨"in_origin", ?_⟩
    rw [Nat.sub_zero, Diagram.design, h.head]
    rfl
  · refine ⟨"in_a", ?_⟩
    rw [Nat.succ_sub_succ, h.outputs_filter (Nat.lt_of_succ_lt hi)]
    rfl

/-- In the code of a filter, the variable of what stands before it is in the place of its input. -/
theorem Numbered.follows {shader : Shader} (hd : d.WellFormed)
    (hc : (Plan.ofDiagram d).compile = .ok shader) {i : Nat} (hi : i < settings.filters.length)
    (hm : settings.filters.length + 1 - i ∈ (Plan.ofDiagram d).stageOrder .vertex) :
    Follows d shader (settings.filters.length + 1 - i) (settings.filters.length + 2 - i) := by
  obtain ⟨before, after, horder⟩ := List.append_of_mem hm
  obtain ⟨blocks, block, later, -, hblock, hstatements⟩ :=
    Plan.emit_split (Plan.emit_of_compile hc .vertex) horder
  have hport : ("a", ⟨.vector3, some (.edge (settings.filters.length + 2 - i) "value"), false,
      false⟩) ∈ (d.entry (settings.filters.length + 1 - i)).node.inputs.entries := by
    rw [h.filter i _ (List.getElem?_eq_getElem hi)]
    exact (Table.get?_eq_some_iff _ _ _).1 (FilterSettings.get?_node _ _ _)
  obtain ⟨spec, hspec, -, hsub⟩ := (Plan.portsFit_of_compile hc).exists_substitute hd
    (Plan.lt_of_mem_stageOrder hd hm) hblock hport rfl
  obtain ⟨e, houtput⟩ := h.outputs_stack hi
  cases hspec.symm.trans houtput
  -- the expression of the output is the word of the input and nothing else
  have hentry : ("value", ⟨.vector3, some "in_a"⟩) ∈
      (d.design (settings.filters.length + 1 - i)).outputs.entries := by
    rw [h.outputs_filter hi]
    exact List.mem_singleton_self _
  obtain ⟨init, hdecl, hinit⟩ := (hsub.putsIn hblock).outputs _ _ _ hentry rfl
  obtain rfl := hinit.eq_of_isName ⟨_, _, rfl, by decide, List.all_eq_true.1 (by decide)⟩
  refine ⟨⟨_, block, later, hstatements, hblock⟩, hsub, Shader.declares_of_mem ?_⟩
  rw [hstatements]
  exact List.mem_append_left _ (List.mem_append_right _ hdecl)

end Follows

/-- The shader of a material with some filters. -/
structure Shape (settings : AnimationSettings) (d : Diagram) (shader : Shader) : Prop extends
    Numbered settings d where
  clocks : d.clocks = (List.range settings.filters.length).map fun i =>
    (settings.filters.length + 4 + i, timeClock settings.sharedClock)
  values : shader.uniforms.values.entries = (List.range settings.filters.length).map fun i =>
    (s!"u_Time_{settings.filters.length + 4 + i}_time", .float .zero)
  uniform : ∀ i < settings.filters.length,
    (Plan.ofDiagram d).uniform? (settings.filters.length + 4 + i) =
      some s!"u_Time_{settings.filters.length + 4 + i}_time"
  sourceCount : shader.uniforms.sourceCount =
    if settings.sharedClock = none then settings.filters.length
    else if 0 < settings.filters.length then 1 else 0
  order : ∃ below, (Plan.ofDiagram d).stageOrder .vertex =
      (settings.filters.length + 3) :: (settings.filters.length + 2) ::
        ((List.range settings.filters.length).flatMap fun i =>
          [settings.filters.length + 4 + i, settings.filters.length + 1 - i]) ++ 1 :: below ∧
    ∀ j ∈ below, 2 * settings.filters.length + 4 ≤ j ∧
      Search.Reaches d.producers (2 * settings.filters.length + 4) j
  titles : shader.vertex.statements.filterMap Statement.title? =
    ((Plan.ofDiagram d).stageOrder .vertex).map fun i => (d.entry i).title
  follows : ∀ i < settings.filters.length,
    Follows d shader (settings.filters.length + 1 - i) (settings.filters.length + 2 - i)

theorem Laid.shape (h : Laid s settings origin head tail diffuse master ps) {shader : Shader}
    (hd : Walk.discover s master = .ok w)
    (hc : (Plan.ofDiagram w.diagram).compile = .ok shader) : Shape settings w.diagram shader := by
  obtain ⟨rest, later, hl⟩ := h.discovers hd
  have hw := Walk.discover_ok hd
  have hnumbered := h.numbered hw (h.strung.length_eq ▸ hl.placed)
  have hclocks := h.clocks_eq hw hl
  obtain ⟨below, horder, hbelow⟩ := h.stageOrder_vertex hw hl
  rw [h.strung.length_eq] at horder hbelow
  have huniforms : shader.uniforms = (Plan.ofDiagram w.diagram).uniforms := by
    obtain ⟨-, -, -, -, huniforms⟩ := (Plan.compile_eq_ok_iff _ _).1 hc
    exact huniforms
  have hvertex := Plan.emit_of_compile hc .vertex
  have htitles : shader.vertex.statements.filterMap Statement.title? = _ :=
    Plan.titles_emit hvertex
  refine ⟨hnumbered, hclocks, ?_, fun i hi => ?_, ?_, ⟨below, horder, hbelow⟩, htitles,
    fun i hi => ?_⟩
  · rw [huniforms]
    exact hnumbered.values_uniforms hw.wellFormed hclocks
  · exact hnumbered.uniform?_clock hw.wellFormed hclocks hi
  · rw [huniforms]
    exact sourceCount_uniforms hw.wellFormed hclocks
  · refine hnumbered.follows hw.wellFormed hc hi ?_
    have hlisted : settings.filters.length + 1 - i ∈ (List.range settings.filters.length).flatMap
        fun i => [settings.filters.length + 4 + i, settings.filters.length + 1 - i] :=
      List.mem_flatMap.2 ⟨i, List.mem_range.2 hi, by simp⟩
    rw [horder]
    exact List.mem_append_left _ (.tail _ (.tail _ hlisted))

/-- Settings of finite numbers have a shader, which has the shape that their filters give it. -/
theorem build_shape (settings : Settings) (hfinite : settings.Finite) (w : Workspace) :
    ∃ master w' shader walk, (build settings).Returns w master w' ∧
      w'.store.compile master = .ok shader ∧ Walk.discover w'.store master = .ok walk ∧
      Shape settings.animation walk.diagram shader := by
  obtain ⟨master, w', hreturns, shader, hshader⟩ := (build_returnsIf settings w).1 hfinite
  obtain ⟨-, walk, hd, hc⟩ := (Store.compile_eq_ok_iff _ _ _).1 hshader
  obtain ⟨origin, head, tail, diffuse, ps, hlaid⟩ := build_laid hreturns
  exact ⟨master, w', shader, walk, hreturns, hshader, hd, hlaid.shape hd hc⟩

theorem build_shape_standard : Settings.standard.Finite ∧ ∃ master w' shader walk,
    (build Settings.standard).Returns default master w' ∧ w'.store.compile master = .ok shader ∧
      Walk.discover w'.store master = .ok walk ∧
      Shape Settings.standard.animation walk.diagram shader ∧
      shader.uniforms.values.keys = ["u_Time_11_time", "u_Time_12_time", "u_Time_13_time",
        "u_Time_14_time", "u_Time_15_time", "u_Time_16_time", "u_Time_17_time"] ∧
      shader.uniforms.sourceCount = 7 := by
  have hfinite : Settings.standard.Finite := by
    unfold Settings.Finite
    decide +kernel
  obtain ⟨master, w', shader, walk, hreturns, hshader, hwalk, hshape⟩ :=
    build_shape Settings.standard hfinite default
  refine ⟨hfinite, master, w', shader, walk, hreturns, hshader, hwalk, hshape, ?_,
    hshape.sourceCount⟩
  rw [Table.keys, hshape.values]
  decide +kernel

end Material

end ShaderGraph
