import ShaderGraph.Proofs.MaterialGraph
import ShaderGraph.Proofs.TreeSearch

/-!
# The numbers of the material

A walk from the master of a material comes down the animation first, from the tail of the stack to
its head, and to the clocks only on its way back. So the filters have falling numbers and their
clocks have rising ones (`Material.Laid.discovers`), and the entry of every node of the animation is
known from its place among the filters (`Material.Laid.numbered`).
-/

namespace ShaderGraph

namespace Material

open Library

section Strung

variable {s : Store} {clock : Option String} {first : NodeId} {fs : List FilterSettings}
  {ps : List (NodeId × NodeId)}

theorem Strung.length_eq (h : Strung s clock first fs ps) : ps.length = fs.length := by
  induction h with
  | nil => rfl
  | cons _ _ ih => rw [List.length_cons, List.length_cons, ih]

/-- Below the last of the filters are the filters from the last to the first, what is below the
first node, and the clocks. -/
theorem Strung.spans (h : Strung s clock first fs ps) {pre post : List NodeId}
    (hfirst : Search.Spans (fun n => (s.get n).producers) [first] pre post) :
    Search.Spans (fun n => (s.get n).producers) [(ps.map Prod.snd).getLastD first]
      ((ps.map Prod.snd).reverse ++ pre ++ ps.map Prod.fst) (post ++ pairIds ps) := by
  induction h generalizing pre post with
  | nil => simpa [pairIds] using hfirst
  | @cons previous f fs p ps hclocked _ ih =>
    have hclock : (s.get p.1).producers = [] := by
      rw [hclocked.clock]
      rfl
    have hfilter : (s.get p.2).producers = [previous] ++ [p.1] := by
      rw [hclocked.filter]
      exact f.producers_node previous p.1 "value" "value"
    have hreads := hfirst.append (.leaf hclock)
    have hspans := ih (.single (hfilter ▸ hreads))
    rw [List.map_cons, List.map_cons, List.getLastD_cons, List.reverse_cons, pairIds_cons]
    simpa only [List.append_assoc, List.cons_append, List.nil_append] using hspans

/-- Each filter reads its clock and what stands before it. -/
theorem Strung.getElem (h : Strung s clock first fs ps) {i : Nat} {p : NodeId × NodeId}
    (hi : ps[i]? = some p) : ∃ f previous, fs[i]? = some f ∧
      (first :: ps.map Prod.snd)[i]? = some previous ∧
      Clocked s clock f (some (.edge previous "value")) p := by
  induction h generalizing i with
  | nil => cases hi
  | @cons previous f fs p ps hclocked _ ih =>
    rcases i with _ | i
    · cases hi
      exact ⟨f, previous, rfl, rfl, hclocked⟩
    · exact ih hi

end Strung

variable {s : Store} {settings : AnimationSettings} {origin head tail diffuse master : NodeId}
  {ps : List (NodeId × NodeId)}

/-- The animation is a tree. -/
theorem Animated.spans (h : Animated s settings origin head tail ps) :
    Search.Spans (fun n => (s.get n).producers) [tail]
      (tail :: ((ps.map Prod.snd).reverse ++ [head, origin] ++ ps.map Prod.fst))
      ([origin, head] ++ pairIds ps ++ [tail]) := by
  have horigin : (s.get origin).producers = [] := by
    rw [h.position]
    rfl
  have hhead : (s.get head).producers = [origin] := by
    rw [h.first]
    rfl
  have htail : (s.get tail).producers = [(ps.map Prod.snd).getLastD head] := by
    rw [h.last]
    rfl
  have hfirst : Search.Spans (fun n => (s.get n).producers) (s.get head).producers [origin]
      [origin] := by
    rw [hhead]
    exact .leaf horigin
  exact .single (htail ▸ h.strung.spans hfirst.single)

theorem Laid.producers_master (h : Laid s settings origin head tail diffuse master ps) :
    (s.get master).producers = [tail] ++ [diffuse] := by
  rw [Node.producers, Table.values, h.entries]
  rfl

/-- The order in which a walk comes to a material, up to the colour. -/
def frontIds (origin head tail diffuse master : NodeId) (ps : List (NodeId × NodeId)) :
    List NodeId :=
  master :: tail :: ((head :: ps.map Prod.snd).reverse ++ origin :: (ps.map Prod.fst ++ [diffuse]))

/-- What a walk comes to and what it leaves: the animation, where it leaves the clock of each filter
before the filter, and the colour with what is below it. -/
structure Listed (s : Store) (w : Walk) (origin head tail diffuse master : NodeId)
    (ps : List (NodeId × NodeId)) (rest later : List NodeId) : Prop where
  ids : w.ids = frontIds origin head tail diffuse master ps ++ rest
  topological : w.topological = [origin, head] ++ pairIds ps ++ [tail] ++ (later ++ [master])
  perm : later.Perm (diffuse :: rest)
  reaches : ∀ n ∈ later, s.Reaches diffuse n

theorem Laid.discovers {w : Walk} (h : Laid s settings origin head tail diffuse master ps)
    (hw : Walk.discover s master = .ok w) :
    ∃ rest later, Listed s w origin head tail diffuse master ps rest later := by
  have hperm : (tail :: ((ps.map Prod.snd).reverse ++ [head, origin] ++ ps.map Prod.fst)).Perm
      (pairIds ps ++ [origin, head, tail]) :=
    h.spans.perm.symm.trans <| calc
      ([origin, head] ++ pairIds ps ++ [tail]).Perm (pairIds ps ++ [origin, head] ++ [tail]) :=
        List.perm_append_comm.append_right _
      _ = pairIds ps ++ [origin, head, tail] := by simp
  obtain ⟨hmaster, hnodup⟩ := List.nodup_cons.1 h.nodup
  obtain ⟨hdiffuse, hnodup⟩ := List.nodup_cons.1 hnodup
  rw [List.mem_cons, not_or] at hmaster
  obtain ⟨later, later', hids, htop, hlater, hreach, hhead⟩ := Walk.discover_forest hw
    h.producers_master h.spans
    (List.nodup_cons.2 ⟨fun hm => hmaster.2 (hperm.mem_iff.1 hm), hperm.nodup_iff.2 hnodup⟩)
  have hfirst := hhead diffuse rfl (by
    rw [List.mem_cons, not_or]
    exact ⟨fun he => hmaster.1 he.symm, fun hm => hdiffuse (hperm.mem_iff.1 hm)⟩)
  obtain ⟨rest, rfl⟩ := List.head?_eq_some_iff.1 hfirst
  refine ⟨rest, later', by simp [hids, frontIds], by simp [htop], hlater, fun n hn => ?_⟩
  obtain ⟨m, hm, hreaches⟩ := hreach n (hlater.mem_iff.1 hn)
  rwa [List.mem_singleton.1 hm] at hreaches

/-- Where a walk lists the nodes of a material with some number of filters. -/
structure Placed (count : Nat) (ids : List NodeId) (origin head tail diffuse master : NodeId)
    (ps : List (NodeId × NodeId)) : Prop where
  master : ids[0]? = some master
  tail : ids[1]? = some tail
  stack : ∀ i n, (head :: ps.map Prod.snd)[i]? = some n → ids[count + 2 - i]? = some n
  origin : ids[count + 3]? = some origin
  clock : ∀ i p, ps[i]? = some p → ids[count + 4 + i]? = some p.1
  diffuse : ids[2 * count + 4]? = some diffuse

section Places

variable {ids : List NodeId} {count : Nat}

theorem Placed.first (h : Placed count ids origin head tail diffuse master ps) :
    ids[count + 2]? = some head := h.stack 0 head rfl

theorem Placed.filter (h : Placed count ids origin head tail diffuse master ps) {i : Nat}
    {p : NodeId × NodeId} (hi : ps[i]? = some p) : ids[count + 1 - i]? = some p.2 := by
  have hplace := h.stack (i + 1) p.2 (by
    rw [List.getElem?_cons_succ, List.getElem?_map, hi, Option.map_some])
  rwa [Nat.succ_sub_succ] at hplace

variable {rest : List NodeId}

/-- The filters are listed backwards. -/
theorem getElem?_stack {i : Nat} {n : NodeId} (hi : (head :: ps.map Prod.snd)[i]? = some n) :
    (frontIds origin head tail diffuse master ps ++ rest)[ps.length + 2 - i]? = some n := by
  obtain ⟨hlt, -⟩ := List.getElem?_eq_some_iff.1 hi
  have hlength : (head :: ps.map Prod.snd).length = ps.length + 1 := by simp
  rw [hlength] at hlt
  have hplace : ps.length + 2 - i = (ps.length - i) + 2 := by omega
  have hback : (head :: ps.map Prod.snd).length - 1 - (ps.length - i) = i := by omega
  have hfront : ps.length - i < (head :: ps.map Prod.snd).reverse.length := by
    rw [List.length_reverse, hlength]
    omega
  rw [hplace, frontIds, List.cons_append, List.cons_append, List.getElem?_cons_succ,
    List.getElem?_cons_succ, List.append_assoc, List.getElem?_append_left hfront,
    List.getElem?_reverse (by omega), hback, hi]

/-- The clocks are listed in order behind the position. -/
theorem getElem?_back (i : Nat) :
    (frontIds origin head tail diffuse master ps ++ rest)[ps.length + 3 + i]? =
      (origin :: (ps.map Prod.fst ++ diffuse :: rest))[i]? := by
  have hfront : frontIds origin head tail diffuse master ps ++ rest =
      (master :: tail :: (head :: ps.map Prod.snd).reverse) ++
        origin :: (ps.map Prod.fst ++ diffuse :: rest) := by
    simp [frontIds]
  have hlength : (master :: tail :: (head :: ps.map Prod.snd).reverse).length = ps.length + 3 := by
    simp
  rw [hfront, List.getElem?_append_right (by omega), hlength, Nat.add_sub_cancel_left]

theorem placed_frontIds : Placed ps.length (frontIds origin head tail diffuse master ps ++ rest)
    origin head tail diffuse master ps where
  master := rfl
  tail := rfl
  stack _ _ hi := getElem?_stack hi
  origin := getElem?_back 0
  clock i p hi := by
    obtain ⟨hlt, -⟩ := List.getElem?_eq_some_iff.1 hi
    have hplace : ps.length + 4 + i = ps.length + 3 + (i + 1) := by omega
    rw [hplace, getElem?_back, List.getElem?_cons_succ,
      List.getElem?_append_left (by simpa using hlt), List.getElem?_map, hi, Option.map_some]
  diffuse := by
    have hplace : 2 * ps.length + 4 = ps.length + 3 + (ps.length + 1) := by omega
    have hlength : ps.length = (ps.map Prod.fst).length := (List.length_map _).symm
    rw [hplace, getElem?_back, List.getElem?_cons_succ, List.getElem?_append_right hlength.ge,
      ← hlength, Nat.sub_self, List.getElem?_cons_zero]

end Places

theorem Listed.placed {w : Walk} {rest later : List NodeId}
    (h : Listed s w origin head tail diffuse master ps rest later) :
    Placed ps.length w.ids origin head tail diffuse master ps := by
  rw [h.ids]
  exact placed_frontIds

theorem node_entry {root n : NodeId} {w : Walk} {i : Nat} (hw : Walk.Explores s root w)
    (hi : w.ids[i]? = some n) :
    (w.diagram.entry i).node = (s.get n).toNode.map w.ids.idxOf := by
  rw [← hw.idxOf_eq hi, hw.entry_idxOf (List.mem_of_getElem? hi)]
  rfl

theorem map_headNode {ρ σ : Type} (g : ρ → σ) (position : ρ) :
    (headNode position).map g = headNode (g position) := rfl

theorem map_tailNode {ρ σ : Type} (g : ρ → σ) (last : ρ) :
    (tailNode last).map g = tailNode (g last) := rfl

/-- The entries of a material in a diagram. -/
structure Numbered (settings : AnimationSettings) (d : Diagram) : Prop where
  position : d.root.node.Edge "position" 1 "value"
  color : d.root.node.Edge "diffuse_color" (2 * settings.filters.length + 4) "value"
  tail : (d.entry 1).node = tailNode 2
  filter : ∀ i f, settings.filters[i]? = some f →
    (d.entry (settings.filters.length + 1 - i)).node =
      f.node (some (.edge (settings.filters.length + 2 - i) "value"))
        (.edge (settings.filters.length + 4 + i) "value")
  head : (d.entry (settings.filters.length + 2)).node = headNode (settings.filters.length + 3)
  origin : (d.entry (settings.filters.length + 3)).node = ⟨geometryPositionTemplate.design, .empty⟩
  clock : ∀ i < settings.filters.length,
    (d.entry (settings.filters.length + 4 + i)).node =
      ⟨clockDesign settings.sharedClock, .empty⟩

theorem Laid.numbered {w : Walk} (h : Laid s settings origin head tail diffuse master ps)
    (hw : Walk.Explores s master w)
    (hp : Placed settings.filters.length w.ids origin head tail diffuse master ps) :
    Numbered settings w.diagram := by
  have hlength := h.strung.length_eq
  refine ⟨?_, ?_, ?_, fun i f hi => ?_, ?_, ?_, fun i hi => ?_⟩
  · exact (hw.edge_iff_number? hp.master _ _ _).2 ⟨tail, ⟨_, by
      rw [h.entries]
      exact .head _, rfl⟩, (hw.number?_eq_some_iff _ _).2 hp.tail⟩
  · exact (hw.edge_iff_number? hp.master _ _ _).2 ⟨diffuse, ⟨_, by
      rw [h.entries]
      exact .tail _ (.tail _ (.head _)), rfl⟩, (hw.number?_eq_some_iff _ _).2 hp.diffuse⟩
  · have hlast : (head :: ps.map Prod.snd)[settings.filters.length]? =
        some ((ps.map Prod.snd).getLastD head) := by
      have hlength' : settings.filters.length = (head :: ps.map Prod.snd).length - 1 := by
        simp [hlength]
      rw [hlength', ← List.getLast?_eq_getElem?, List.getLast?_cons, List.getLastD_eq_getLast?]
    have htwo : settings.filters.length + 2 - settings.filters.length = 2 := by omega
    rw [node_entry hw hp.tail, h.last, map_tailNode, hw.idxOf_eq (hp.stack _ _ hlast), htwo]
  · obtain ⟨hlt, -⟩ := List.getElem?_eq_some_iff.1 hi
    obtain ⟨p, hpair⟩ : ∃ p, ps[i]? = some p := ⟨_, List.getElem?_eq_getElem (hlength ▸ hlt)⟩
    obtain ⟨f', previous, hf, hprevious, hclocked⟩ := h.strung.getElem hpair
    cases hi.symm.trans hf
    rw [node_entry hw (hp.filter hpair), hclocked.filter, FilterSettings.map_node, Option.map_some,
      Source.map, Source.map, hw.idxOf_eq (hp.stack _ _ hprevious),
      hw.idxOf_eq (hp.clock _ _ hpair)]
  · rw [node_entry hw hp.first, h.first, map_headNode, hw.idxOf_eq hp.origin]
  · rw [node_entry hw hp.origin, h.position]
    rfl
  · obtain ⟨p, hpair⟩ : ∃ p, ps[i]? = some p := ⟨_, List.getElem?_eq_getElem (hlength ▸ hi)⟩
    obtain ⟨f, previous, -, -, hclocked⟩ := h.strung.getElem hpair
    rw [node_entry hw (hp.clock _ _ hpair), hclocked.clock]
    rfl

end Material

end ShaderGraph
