import ShaderGraph.Proofs.Clocks

/-!
# Time over many updates

After any updates of the uniforms of a shader, every source has run for the sum of the times that
have passed, and every clock shows this time at its own scale, however many clocks share the source
(`updates_keep_time`). There is a source for each clock that keeps its own time and one for each
name that clocks share (`length_keys`).
-/

namespace ShaderGraph

/-- The name of the source that a clock shares with others. -/
def Clock.sharedName? (c : Clock) : Option String :=
  match c.source with
  | .own => none
  | .shared name => some name

namespace Clock

variable (c : Clock)

theorem sharedName?_eq_some_iff (name : String) :
    c.sharedName? = some name ↔ c.source = .shared name := by
  rcases c with ⟨_, _ | _, _⟩ <;> simp [sharedName?]

theorem timeSource_eq_node_iff (ident ident' : String) :
    c.timeSource ident = .node ident' ↔ c.source = .own ∧ ident = ident' := by
  rcases c with ⟨_, _ | _, _⟩ <;> simp [timeSource]

theorem timeSource_eq_shared_iff (ident name : String) :
    c.timeSource ident = .shared name ↔ c.source = .shared name := by
  rcases c with ⟨_, _ | _, _⟩ <;> simp [timeSource]

theorem key_eq_node_iff (i j : Nat) : c.key i = .node j ↔ c.source = .own ∧ i = j := by
  rcases c with ⟨_, _ | _, _⟩ <;> simp [key]

theorem key_eq_shared_iff (i : Nat) (name : String) :
    c.key i = .shared name ↔ c.source = .shared name := by
  rcases c with ⟨_, _ | _, _⟩ <;> simp [key]

end Clock

/-! ## Sources -/

section Sources

variable {clocks : List (Nat × Clock)} {keys : List TimeKey} (hnodup : keys.Nodup)
  (hmem : ∀ key, key ∈ keys ↔ ∃ x ∈ clocks, x.2.key x.1 = key)
include hmem

/-- The keys are the numbers of the clocks with their own time and the names that are shared. -/
theorem mem_keys_iff (key : TimeKey) : key ∈ keys ↔
    key ∈ ((clocks.filter fun x => x.2.source = .own).map fun x => TimeKey.node x.1) ++
      (clocks.filterMap fun x => x.2.sharedName?).dedup.map TimeKey.shared := by
  rw [hmem, List.mem_append]
  rcases key with i | name
  · simp only [Clock.key_eq_node_iff, List.mem_map, List.mem_filter, decide_eq_true_eq,
      TimeKey.node.injEq, and_assoc, reduceCtorEq, and_false, exists_false, or_false]
  · simp [Clock.key_eq_shared_iff, Clock.sharedName?_eq_some_iff]

include hnodup in
theorem length_keys (hclocks : (clocks.map Prod.fst).Nodup) :
    keys.length = clocks.countP (fun x => x.2.source = .own) +
      (clocks.filterMap fun x => x.2.sharedName?).toFinset.card := by
  have hnumbers : ((clocks.filter fun x => x.2.source = .own).map Prod.fst).Nodup :=
    hclocks.sublist (List.filter_sublist.map _)
  have hown := hnumbers.map (f := TimeKey.node) fun _ _ he => TimeKey.node.inj he
  rw [List.map_map] at hown
  have hshared : ((clocks.filterMap fun x => x.2.sharedName?).dedup.map TimeKey.shared).Nodup :=
    (List.nodup_dedup _).map fun _ _ he => TimeKey.shared.inj he
  have hboth := List.nodup_append.2 ⟨hown, hshared, fun key hm key' hm' => by
    obtain ⟨_, -, rfl⟩ := List.mem_map.1 hm
    obtain ⟨_, -, rfl⟩ := List.mem_map.1 hm'
    exact TimeKey.noConfusion⟩
  have hperm := (List.perm_ext_iff_of_nodup hnodup hboth).2 (mem_keys_iff hmem)
  rw [hperm.length_eq, List.length_append, List.length_map, List.length_map,
    ← List.countP_eq_length_filter, List.card_toFinset]

end Sources

namespace Uniforms.Shows

variable {d : Diagram} {clocks : List (Nat × Clock)} {keys : List TimeKey} {time : Double}
  {value : Clock → Value} {u : Uniforms} (h : Shows d clocks keys time value u)
include h

theorem sourceCount_eq : u.sourceCount = keys.length := by
  rw [sourceCount, h.times, List.length_replicate]

theorem get?_values {x : Nat × Clock} (hx : x ∈ clocks) :
    u.values.get? (d.clockName x) = some (value x.2) := by
  rw [Table.get?_eq_some_iff, h.values]
  exact List.mem_map_of_mem hx

theorem time?_eq_some_iff (source : TimeSource) (t : Double) :
    u.time? source = some t ↔ t = time ∧ source ∈ u.sources := by
  have hlength : u.sources.length = keys.length := by rw [h.sources, List.length_map]
  simp only [time?, Option.bind_eq_some_iff, h.times, List.getElem?_replicate]
  constructor
  · rintro ⟨i, hi, ht⟩
    split_ifs at ht
    exact ⟨(Option.some.inj ht).symm, List.isSome_idxOf?.1 (by rw [hi]; rfl)⟩
  · rintro ⟨rfl, hm⟩
    obtain ⟨i, hi⟩ := Option.isSome_iff_exists.1 (List.isSome_idxOf?.2 hm)
    obtain ⟨hlt, -⟩ := List.idxOf?_eq_some_iff.1 hi
    exact ⟨i, hi, if_pos (hlength ▸ hlt)⟩

theorem mem_sources_iff (hmem : ∀ key, key ∈ keys ↔ ∃ x ∈ clocks, x.2.key x.1 = key)
    (source : TimeSource) : source ∈ u.sources ↔
      ∃ x ∈ clocks, x.2.timeSource (d.entry x.1).ident = source := by
  simp only [h.sources, List.mem_map, hmem, ← Clock.source_key]
  constructor
  · rintro ⟨_, ⟨x, hx, rfl⟩, rfl⟩
    exact ⟨x, hx, rfl⟩
  · rintro ⟨x, hx, rfl⟩
    exact ⟨_, ⟨x, hx, rfl⟩, rfl⟩

end Uniforms.Shows

/-! ## Walks -/

namespace Walk.Explores

variable {s : Store} {root : NodeId} {w : Walk} (hw : Explores s root w)
include hw

theorem exists_clock_iff (source : TimeSource) :
    (∃ x ∈ w.diagram.clocks, x.2.timeSource (w.diagram.entry x.1).ident = source) ↔
      ∃ n c, (n, c) ∈ clocksOf s.design w.ids ∧ c.timeSource (identIn s w.ids n) = source := by
  simp only [hw.clocks_eq, List.mem_map]
  constructor
  · rintro ⟨_, ⟨⟨n, c⟩, hm, rfl⟩, he⟩
    rw [hw.entry_idxOf (mem_clocksOf.1 hm).1] at he
    exact ⟨n, c, hm, he⟩
  · rintro ⟨n, c, hm, he⟩
    refine ⟨_, ⟨(n, c), hm, rfl⟩, ?_⟩
    rw [hw.entry_idxOf (mem_clocksOf.1 hm).1]
    exact he

end Walk.Explores

/-- After any updates of the uniforms of a shader, the times that have passed, added one after
another, are the time of every source, and each clock shows it at its own scale. -/
theorem Store.updates_keep_time {s : Store} {root : NodeId} {shader : Shader}
    (hc : s.compile root = .ok shader) :
    ∃ w, Walk.discover s root = .ok w ∧ ∀ deltas : List Double,
      let u := deltas.foldl Uniforms.update shader.uniforms
      let time : Double := deltas.foldl (· + ·) .zero
      u.sourceCount = (clocksOf s.design w.ids).countP (fun x => x.2.source = .own) +
        ((clocksOf s.design w.ids).filterMap fun x => x.2.sharedName?).toFinset.card ∧
      (∀ ident t, u.elapsed? ident = some t ↔ t = time ∧
        ∃ n c, (n, c) ∈ clocksOf s.design w.ids ∧ c.source = .own ∧
          Walk.identIn s w.ids n = ident) ∧
      (∀ name t, u.sharedElapsed? name = some t ↔ t = time ∧
        ∃ n c, (n, c) ∈ clocksOf s.design w.ids ∧ c.source = .shared name) ∧
      u.values.keys = shader.uniforms.values.keys ∧
      ∀ n c, (n, c) ∈ clocksOf s.design w.ids → u.values.get? (w.clockName s (n, c)) =
        some (.float (if deltas = [] then .zero
          else (time * (c.scale.convert : Double)).convert)) := by
  obtain ⟨-, w, hdisc, hplan⟩ := (s.compile_eq_ok_iff root shader).1 hc
  obtain ⟨-, -, -, -, huniforms⟩ := (Plan.compile_eq_ok_iff _ _).1 hplan
  have hw := Walk.discover_ok hdisc
  obtain ⟨keys, hnodup, hmem, hstart⟩ := Plan.shows_uniforms hw.wellFormed
  rw [← huniforms] at hstart
  refine ⟨w, hdisc, fun deltas => ?_⟩
  have h := hstart.foldl_update (fun x hx => (hmem _).2 ⟨x, hx, rfl⟩) deltas
  refine ⟨?_, fun ident t => ?_, fun name t => ?_, ?_, fun n c hm => ?_⟩
  · rw [h.sourceCount_eq, length_keys hnodup hmem w.diagram.nodup_numbers, hw.clocks_eq,
      List.countP_map, List.filterMap_map]
    rfl
  · rw [Uniforms.elapsed?, h.time?_eq_some_iff, h.mem_sources_iff hmem, hw.exists_clock_iff]
    simp only [Clock.timeSource_eq_node_iff]
  · rw [Uniforms.sharedElapsed?, h.time?_eq_some_iff, h.mem_sources_iff hmem,
      hw.exists_clock_iff]
    simp only [Clock.timeSource_eq_shared_iff]
  · rw [h.keys_values, hstart.keys_values]
  · rw [← hw.clockName_idxOf hm, h.get?_values]
    · split_ifs <;> rfl
    · rw [hw.clocks_eq]
      exact List.mem_map.2 ⟨(n, c), hm, rfl⟩

theorem updates_keep_time_pulse : ∃ shader, pulse.compile ⟨3⟩ = .ok shader ∧
    ∀ deltas : List Double,
      let u := deltas.foldl Uniforms.update shader.uniforms
      u.sourceCount = 1 ∧ u.elapsed? "Time_3" = some (deltas.foldl (· + ·) .zero) ∧
        ∀ name, u.sharedElapsed? name = none := by
  obtain ⟨shader, hc⟩ := pulse_compiles
  obtain ⟨w, hdisc, h⟩ := Store.updates_keep_time hc
  have hclocks : clocksOf pulse.design w.ids = [(⟨1⟩, .ofUniform "time")] := by
    have hw : (Walk.discover pulse ⟨3⟩).toOption.map (fun w => clocksOf pulse.design w.ids) =
      some [(⟨1⟩, .ofUniform "time")] := rfl
    rw [hdisc] at hw
    exact Option.some.inj hw
  have hident : Walk.identIn pulse w.ids ⟨1⟩ = "Time_3" := by
    have hw : (Walk.discover pulse ⟨3⟩).toOption.map (fun w => Walk.identIn pulse w.ids ⟨1⟩) =
      some "Time_3" := by decide +kernel
    rw [hdisc] at hw
    exact Option.some.inj hw
  refine ⟨shader, hc, fun deltas => ?_⟩
  obtain ⟨hcount, helapsed, hshared, -, -⟩ := h deltas
  rw [hclocks] at hcount helapsed hshared
  refine ⟨hcount, ?_, fun name => ?_⟩
  · rw [helapsed]
    exact ⟨rfl, ⟨1⟩, _, List.mem_singleton_self _, rfl, hident⟩
  · refine Option.eq_none_iff_forall_ne_some.2 fun t ht => ?_
    obtain ⟨-, n, c, hm, hsource⟩ := (hshared name t).1 ht
    cases List.mem_singleton.1 hm
    cases hsource

end ShaderGraph
