import ShaderGraph.Proofs.Compiles
import ShaderGraph.Proofs.Naming

/-!
# Clocks and their places

A binder gives every clock a uniform of its own, in the order in which the clocks are bound, and
every source one place at which all its clocks look it up (`Binder.Holds.bind`). An update then
shows every clock the time of its source (`Uniforms.Shows.update`), whatever was shown before.
-/

namespace ShaderGraph

section ClocksOf

variable {ρ : Type} {design : ρ → Design} {l : List ρ}

/-- The members of a list whose designs have clocks, with these. -/
def clocksOf (design : ρ → Design) (l : List ρ) : List (ρ × Clock) :=
  l.filterMap fun n => (design n).clock.map (n, ·)

theorem mem_clocksOf {n : ρ} {c : Clock} :
    (n, c) ∈ clocksOf design l ↔ n ∈ l ∧ (design n).clock = some c := by
  simp only [clocksOf, List.mem_filterMap, Option.map_eq_some_iff, Prod.mk.injEq]
  constructor
  · rintro ⟨_, hn, _, hc, rfl, rfl⟩
    exact ⟨hn, hc⟩
  · rintro ⟨hn, hc⟩
    exact ⟨n, hn, c, hc, rfl, rfl⟩

theorem nodup_map_fst_clocksOf (h : l.Nodup) : ((clocksOf design l).map Prod.fst).Nodup := by
  rw [clocksOf, List.map_filterMap]
  refine h.filterMap fun n m k hn hm => ?_
  simp only [Option.map_map, Option.mem_def, Option.map_eq_some_iff] at hn hm
  obtain ⟨_, -, rfl⟩ := hn
  obtain ⟨_, -, rfl⟩ := hm
  rfl

theorem clocksOf_map {σ : Type} {design' : σ → Design} (f : ρ → σ)
    (h : ∀ n ∈ l, design' (f n) = design n) :
    clocksOf design' (l.map f) = (clocksOf design l).map fun x => (f x.1, x.2) := by
  rw [clocksOf, List.filterMap_map, clocksOf, List.map_filterMap]
  refine List.filterMap_congr fun n hn => ?_
  rw [Function.comp_apply, h n hn, Option.map_map]
  rfl

theorem clocksOf_append (l l' : List ρ) :
    clocksOf design (l ++ l') = clocksOf design l ++ clocksOf design l' := List.filterMap_append

theorem clocksOf_eq_nil (h : ∀ n ∈ l, (design n).clock = none) : clocksOf design l = [] :=
  List.filterMap_eq_nil_iff.2 fun n hn => by rw [h n hn, Option.map_none]

theorem clocksOf_eq_map {c : Clock} (h : ∀ n ∈ l, (design n).clock = some c) :
    clocksOf design l = l.map (·, c) := by
  rw [clocksOf, List.filterMap_congr fun n hn => by rw [h n hn, Option.map_some],
    List.filterMap_eq_map']

end ClocksOf

namespace Diagram

/-- The clocks of the nodes with their numbers, in the order of the numbers. -/
def clocks (d : Diagram) : List (Nat × Clock) := clocksOf d.design (List.range d.entries.length)

/-- The name of the uniform of a clock. -/
def clockName (d : Diagram) (x : Nat × Clock) : String := (d.entry x.1).uniformName x.2

variable {d : Diagram}

theorem nodup_numbers (d : Diagram) : (d.clocks.map Prod.fst).Nodup :=
  nodup_map_fst_clocksOf List.nodup_range

theorem WellFormed.clockName_inj (hd : d.WellFormed) {x y : Nat × Clock} (hx : x ∈ d.clocks)
    (hy : y ∈ d.clocks) (h : d.clockName x = d.clockName y) : x = y := by
  obtain ⟨hi, hc⟩ := mem_clocksOf.1 hx
  obtain ⟨hj, hc'⟩ := mem_clocksOf.1 hy
  rw [List.mem_range] at hi hj
  change (d.entry x.1).label (.uniform x.2.uniform) =
    (d.entry y.1).label (.uniform y.2.uniform) at h
  have hij := (hd.label_inj hi hj h).1
  rw [hij, hc'] at hc
  exact Prod.ext hij (Option.some.inj hc).symm

theorem WellFormed.nodup_clockNames (hd : d.WellFormed) : (d.clocks.map d.clockName).Nodup :=
  d.nodup_numbers.of_map.map_on fun _ hx _ hy => hd.clockName_inj hx hy

end Diagram

/-- The source that a key stands for in a diagram. -/
def TimeKey.source (d : Diagram) : TimeKey → TimeSource
  | .node number => .node (d.entry number).ident
  | .shared name => .shared name

theorem Clock.source_key (c : Clock) (d : Diagram) (i : Nat) :
    (c.key i).source d = c.timeSource (d.entry i).ident := by
  rcases c with ⟨_, _ | _, _⟩ <;> rfl

namespace Binder

/-- What a binder holds after clocks of a diagram's nodes were bound in the order of a list. -/
structure Holds (d : Diagram) (clocks : List (Nat × Clock)) (b : Binder) : Prop where
  nodup : b.keys.Nodup
  mem_keys : ∀ key, key ∈ b.keys ↔ ∃ x ∈ clocks, x.2.key x.1 = key
  sources : b.sources = b.keys.map fun key => (key, key.source d)
  bindings : b.bindings =
    clocks.mapIdx fun slot x => ⟨slot, b.keys.idxOf (x.2.key x.1), x.2.scale⟩
  values : b.values.entries = clocks.map fun x => (d.clockName x, .float .zero)

variable {d : Diagram} {clocks : List (Nat × Clock)} {b : Binder}

theorem holds_empty (d : Diagram) : Holds d [] empty :=
  ⟨List.nodup_nil, by simp [keys, empty], rfl, rfl, rfl⟩

theorem keys_addSource (b : Binder) (key : TimeKey) (source : TimeSource) :
    (b.addSource key source).keys = if key ∈ b.keys then b.keys else b.keys ++ [key] := by
  unfold addSource
  split_ifs
  · rfl
  · simp [keys]

theorem idxOf_keys_addSource {key : TimeKey} (h : key ∈ b.keys) (key' : TimeKey)
    (source : TimeSource) : (b.addSource key' source).keys.idxOf key = b.keys.idxOf key := by
  rw [keys_addSource]
  split_ifs
  · rfl
  · exact List.idxOf_append_of_mem h

theorem bindings_addSource (b : Binder) (key : TimeKey) (source : TimeSource) :
    (b.addSource key source).bindings = b.bindings := by
  unfold addSource
  split_ifs <;> rfl

theorem values_addSource (b : Binder) (key : TimeKey) (source : TimeSource) :
    (b.addSource key source).values = b.values := by
  unfold addSource
  split_ifs <;> rfl

namespace Holds

variable (h : Holds d clocks b)
include h

theorem nodup_addSource (key : TimeKey) (source : TimeSource) :
    (b.addSource key source).keys.Nodup := by
  rw [keys_addSource]
  split_ifs with hk
  · exact h.nodup
  · refine List.nodup_append.2 ⟨h.nodup, List.nodup_singleton _, ?_⟩
    rintro key' hm _ hm' rfl
    exact hk (List.mem_singleton.1 hm' ▸ hm)

theorem mem_keys_addSource (i : Nat) (c : Clock) (source : TimeSource) (key : TimeKey) :
    key ∈ (b.addSource (c.key i) source).keys ↔
      ∃ x ∈ clocks ++ [(i, c)], x.2.key x.1 = key := by
  have hmem : (∃ x ∈ clocks ++ [(i, c)], x.2.key x.1 = key) ↔ key ∈ b.keys ∨ c.key i = key := by
    simp only [List.mem_append, List.mem_singleton, or_and_right, exists_or, exists_eq_left,
      h.mem_keys]
  rw [hmem, keys_addSource]
  split_ifs with hk
  · refine ⟨.inl, ?_⟩
    rintro (hm | rfl)
    · exact hm
    · exact hk
  · rw [List.mem_append, List.mem_singleton, eq_comm (a := key)]

theorem sources_addSource (key : TimeKey) : (b.addSource key (key.source d)).sources =
    (b.addSource key (key.source d)).keys.map fun key => (key, key.source d) := by
  rw [keys_addSource]
  unfold addSource
  split_ifs
  · exact h.sources
  · rw [List.map_append, ← h.sources]
    rfl

/-- A clock whose uniform has a new name is bound behind the others. -/
theorem bind {i : Nat} {c : Clock} (hnew : d.clockName (i, c) ∉ clocks.map d.clockName) :
    Holds d (clocks ++ [(i, c)]) (b.bind i (d.entry i).ident (d.clockName (i, c)) c) := by
  have hname : d.clockName (i, c) ∉ b.values.keys := by
    rwa [Table.keys, h.values, List.map_map]
  have hslot : (b.values.insert (d.clockName (i, c)) (.float .zero)).keys.idxOf
      (d.clockName (i, c)) = clocks.length := by
    rw [Table.keys_insert, if_neg hname, List.idxOf_append_of_notMem hname, List.idxOf_cons_self,
      Table.keys, List.length_map, h.values, List.length_map, Nat.add_zero]
  refine ⟨h.nodup_addSource _ _, h.mem_keys_addSource i c _, ?_, ?_, ?_⟩
  · have hsources := h.sources_addSource (c.key i)
    rw [c.source_key] at hsources
    exact hsources
  · change (b.addSource _ _).bindings ++ [_] = _
    rw [bindings_addSource, values_addSource, hslot, List.mapIdx_concat, h.bindings]
    congr 1
    -- the keys that were there before keep their places
    refine List.mapIdx_eq_mapIdx_iff.2 fun slot hlt => ?_
    have hm := (h.mem_keys _).2 ⟨_, List.getElem_mem hlt, rfl⟩
    rw [Binding.mk.injEq]
    exact ⟨rfl, (idxOf_keys_addSource hm _ _).symm, rfl⟩
  · change ((b.addSource _ _).values.insert _ _).entries = _
    rw [values_addSource, Table.entries_insert hname, h.values, List.map_append]
    rfl

end Holds

end Binder

namespace Plan

/-- A binder after clocks of a plan's nodes were bound one after another. -/
def bindClocks (p : Plan) (clocks : List (Nat × Clock)) : Binder :=
  clocks.foldl (fun b x => b.bind x.1 (p.diagram.entry x.1).ident (p.diagram.clockName x) x.2)
    .empty

theorem uniforms_eq (p : Plan) : p.uniforms = (p.bindClocks p.diagram.clocks).finish := by
  rw [uniforms, bindClocks, Diagram.clocks, clocksOf, List.foldl_filterMap]
  congr 1
  refine congrFun (congrFun (congrArg _ (funext fun b => funext fun i => ?_)) _) _
  simp only [bindClock, Diagram.design, Diagram.clockName]
  rcases (p.diagram.entry i).node.design.clock with _ | c <;> rfl

theorem holds_bindClocks (p : Plan) (clocks : List (Nat × Clock))
    (hnd : (clocks.map p.diagram.clockName).Nodup) :
    (p.bindClocks clocks).Holds p.diagram clocks := by
  induction clocks using List.reverseRecOn with
  | nil => exact Binder.holds_empty _
  | append_singleton clocks x ih =>
    rw [List.map_append, List.nodup_append] at hnd
    rw [bindClocks, List.foldl_append]
    exact (ih hnd.1).bind fun hm => hnd.2.2 _ hm _ (List.mem_singleton_self _) rfl

end Plan

/-! ## Updates -/

namespace Uniforms

/-- What the clocks of a diagram show at a time, under the keys of their sources. -/
structure Shows (d : Diagram) (clocks : List (Nat × Clock)) (keys : List TimeKey) (time : Double)
    (value : Clock → Value) (u : Uniforms) : Prop where
  sources : u.sources = keys.map (TimeKey.source d)
  times : u.times = List.replicate keys.length time
  bindings : u.bindings =
    clocks.mapIdx fun slot x => ⟨slot, keys.idxOf (x.2.key x.1), x.2.scale⟩
  values : u.values.entries = clocks.map fun x => (d.clockName x, value x.2)

variable {d : Diagram} {clocks : List (Nat × Clock)} {keys : List TimeKey} {time : Double}
  {value : Clock → Value} {u : Uniforms}

theorem Shows.keys_values (h : Shows d clocks keys time value u) :
    u.values.keys = clocks.map d.clockName := by
  rw [Table.keys, h.values, List.map_map]
  rfl

/-- The uniform of a clock is at the place that the clock's binding has. -/
theorem Shows.exists_binding (h : Shows d clocks keys time value u) {x : Nat × Clock}
    (hx : x ∈ clocks) : ∃ b ∈ u.bindings, u.values.keys[b.slot]? = some (d.clockName x) := by
  obtain ⟨j, hj, rfl⟩ := List.getElem_of_mem hx
  refine ⟨⟨j, keys.idxOf (clocks[j].2.key clocks[j].1), clocks[j].2.scale⟩, ?_, ?_⟩
  · rw [h.bindings]
    exact List.mem_mapIdx.2 ⟨j, hj, rfl⟩
  · rw [h.keys_values, List.getElem?_map, List.getElem?_eq_getElem hj]
    rfl

/-- With a binding for every place up to a number, the values at these places are set. -/
theorem getElem?_foldl_setAt (f : Binding → Value) (t : Table Value) (bindings : List Binding)
    (h : bindings.map Binding.slot = List.range bindings.length) (j : Nat) :
    (bindings.foldl (fun t b => t.setAt b.slot (f b)) t).entries[j]? =
      t.entries[j]?.map fun entry => (entry.1, (bindings[j]?.map f).getD entry.2) := by
  induction bindings using List.reverseRecOn with
  | nil => simp
  | append_singleton bindings b ih =>
    rw [List.map_append, List.length_append, List.length_singleton, List.range_succ] at h
    obtain ⟨hslots, hb⟩ := List.append_inj h (by simp)
    have hslot : b.slot = bindings.length := List.singleton_inj.1 hb
    rw [List.foldl_append, List.foldl_cons, List.foldl_nil, Table.getElem?_entries_setAt,
      ih hslots, hslot, Option.map_map]
    congr 1
    funext entry
    rcases Nat.lt_trichotomy j bindings.length with hj | rfl | hj
    · rw [List.getElem?_append_left hj]
      exact if_neg (Nat.ne_of_gt hj)
    · simp
    · have hlength : (bindings ++ [b]).length ≤ j := by
        rw [List.length_append]
        exact hj
      rw [List.getElem?_eq_none hlength, List.getElem?_eq_none hj.le]
      exact if_neg (Nat.ne_of_lt hj)

theorem Shows.slots (h : Shows d clocks keys time value u) :
    u.bindings.map Binding.slot = List.range u.bindings.length := by
  refine List.ext_getElem (by simp) fun j _ _ => ?_
  simp [h.bindings]

theorem getD_idxOf_times {key : TimeKey} (h : key ∈ keys) (time : Double) :
    (List.replicate keys.length time).getD (keys.idxOf key) .zero = time := by
  rw [List.getD_replicate]
  exact List.idxOf_lt_length_of_mem h

/-- An update lets a time pass for every source and shows every clock the time of its source. -/
theorem Shows.update (h : Shows d clocks keys time value u)
    (hkeys : ∀ x ∈ clocks, x.2.key x.1 ∈ keys) (delta : Double) :
    Shows d clocks keys (time + delta) (fun c => valueAt (time + delta) c.scale)
      (u.update delta) := by
  have htimes : u.times.map (· + delta) = List.replicate keys.length (time + delta) := by
    rw [h.times, List.map_replicate]
  refine ⟨h.sources, htimes, h.bindings, List.ext_getElem? fun j => ?_⟩
  change (u.bindings.foldl (fun t b => t.setAt b.slot
    (valueAt ((u.times.map (· + delta)).getD b.source .zero) b.scale)) u.values).entries[j]? = _
  rw [htimes, getElem?_foldl_setAt (fun b => valueAt _ b.scale) _ _ h.slots, h.values, h.bindings,
    List.getElem?_mapIdx, List.getElem?_map, List.getElem?_map]
  rcases hx : clocks[j]? with _ | x
  · rfl
  · have hkey := hkeys x (List.mem_of_getElem? hx)
    simp only [Option.map_some, Option.getD_some, getD_idxOf_times hkey]

/-- Any number of updates shows the sum of the times that have passed. -/
theorem Shows.foldl_update (h : Shows d clocks keys time value u)
    (hkeys : ∀ x ∈ clocks, x.2.key x.1 ∈ keys) (deltas : List Double) :
    Shows d clocks keys (deltas.foldl (· + ·) time)
      (fun c => if deltas = [] then value c
        else valueAt (deltas.foldl (· + ·) time) c.scale)
      (deltas.foldl Uniforms.update u) := by
  induction deltas using List.reverseRecOn with
  | nil => exact h
  | append_singleton deltas delta ih =>
    simp only [List.foldl_append, List.foldl_cons, List.foldl_nil, List.append_eq_nil_iff,
      List.cons_ne_nil, and_false, if_false]
    exact ih.update hkeys delta

end Uniforms

/-- Before any update, every clock of a diagram shows zero. -/
theorem Plan.shows_uniforms {d : Diagram} (hd : d.WellFormed) :
    ∃ keys : List TimeKey, keys.Nodup ∧
      (∀ key, key ∈ keys ↔ ∃ x ∈ d.clocks, x.2.key x.1 = key) ∧
      Uniforms.Shows d d.clocks keys .zero (fun _ => .float .zero) (ofDiagram d).uniforms := by
  have h : Binder.Holds d d.clocks ((ofDiagram d).bindClocks d.clocks) :=
    (ofDiagram d).holds_bindClocks d.clocks hd.nodup_clockNames
  refine ⟨_, h.nodup, h.mem_keys, ?_⟩
  rw [uniforms_eq]
  refine ⟨?_, ?_, h.bindings, h.values⟩
  · change ((ofDiagram d).bindClocks d.clocks).sources.map Prod.snd = _
    rw [h.sources, List.map_map]
    rfl
  · rw [Binder.finish, Binder.keys, List.length_map]
    rfl

/-! ## Walks -/

namespace Walk

/-- The name of the uniform of an instance's clock. -/
def clockName (s : Store) (w : Walk) (x : NodeId × Clock) : String :=
  (entryIn s w.ids x.1).uniformName x.2

namespace Explores

variable {s : Store} {root : NodeId} {w : Walk} (hw : Explores s root w)
include hw

theorem clocks_eq : w.diagram.clocks =
    (clocksOf s.design w.ids).map fun x => (w.ids.idxOf x.1, x.2) := by
  rw [Diagram.clocks, ← hw.map_idxOf_ids]
  exact clocksOf_map _ fun n hn => hw.design_idxOf hn

theorem clockName_idxOf {x : NodeId × Clock} (hx : x ∈ clocksOf s.design w.ids) :
    w.diagram.clockName (w.ids.idxOf x.1, x.2) = w.clockName s x := by
  rw [Diagram.clockName, hw.entry_idxOf (mem_clocksOf.1 hx).1]
  rfl

theorem map_clockName_clocks :
    w.diagram.clocks.map w.diagram.clockName = (clocksOf s.design w.ids).map (w.clockName s) := by
  rw [hw.clocks_eq, List.map_map]
  exact List.map_congr_left fun x hx => hw.clockName_idxOf hx

theorem nodup_clockNames : ((clocksOf s.design w.ids).map (w.clockName s)).Nodup :=
  hw.map_clockName_clocks ▸ hw.wellFormed.nodup_clockNames

end Explores

end Walk

end ShaderGraph
