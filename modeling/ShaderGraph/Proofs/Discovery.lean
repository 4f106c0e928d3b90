import Mathlib.Data.List.Basic
import Mathlib.Data.List.Perm.Basic
import ShaderGraph.Graph.Walk
import ShaderGraph.Proofs.DepthFirst

/-!
# What a walk discovers

A walk from a root exists if no cycle of edges is below the root (`discover_isOk_iff`), and it
then numbers exactly the instances that the root reaches (`discover_ok`). Its diagram has an entry
for every number and an edge for every edge of the store, and its order puts every producer before
its consumers and the root last (`Explores.wellFormed`).
-/

namespace ShaderGraph

/-! ## Edges -/

namespace Node

variable {ρ σ : Type}

/-- The input of a name reads an output of a producer. -/
def Edge (n : Node ρ) (name : String) (producer : ρ) (output : String) : Prop :=
  ∃ port, (name, port) ∈ n.inputs.entries ∧ port.edge? = some (producer, output)

theorem mem_producers (n : Node ρ) (producer : ρ) :
    producer ∈ n.producers ↔ ∃ name output, n.Edge name producer output := by
  simp only [producers, Table.values, List.mem_filterMap, List.mem_map, Option.map_eq_some_iff,
    Edge]
  constructor
  · rintro ⟨_, ⟨⟨name, port⟩, hm, rfl⟩, ⟨_, output⟩, he, rfl⟩
    exact ⟨name, output, port, hm, he⟩
  · rintro ⟨name, output, port, hm, he⟩
    exact ⟨port, ⟨(name, port), hm, rfl⟩, (producer, output), he, rfl⟩

theorem edge?_map (f : ρ → σ) (p : Port ρ) :
    (p.map f).edge? = p.edge?.map fun e => (f e.1, e.2) := by
  rcases p with ⟨_, _ | ⟨_ | _ | _⟩, _, _⟩ <;> rfl

theorem mem_inputs_map (f : ρ → σ) (n : Node ρ) (name : String) (port : Port σ) :
    (name, port) ∈ (n.map f).inputs.entries ↔
      ∃ port', (name, port') ∈ n.inputs.entries ∧ port = port'.map f := by
  simp only [Node.map, Table.entries_map, List.mem_map, Prod.mk.injEq, Prod.exists]
  constructor
  · rintro ⟨_, port', hm, rfl, rfl⟩
    exact ⟨port', hm, rfl⟩
  · rintro ⟨port', hm, rfl⟩
    exact ⟨name, port', hm, rfl, rfl⟩

theorem edge_map (f : ρ → σ) (n : Node ρ) (name : String) (producer : σ) (output : String) :
    (n.map f).Edge name producer output ↔ ∃ p, n.Edge name p output ∧ f p = producer := by
  simp only [Edge, mem_inputs_map]
  constructor
  · rintro ⟨_, ⟨port, hm, rfl⟩, he⟩
    rw [edge?_map, Option.map_eq_some_iff] at he
    obtain ⟨⟨p, o⟩, he, h⟩ := he
    simp only [Prod.mk.injEq] at h
    obtain ⟨rfl, rfl⟩ := h
    exact ⟨p, ⟨port, hm, he⟩, rfl⟩
  · rintro ⟨p, ⟨port, hm, he⟩, rfl⟩
    exact ⟨_, ⟨port, hm, rfl⟩, by rw [edge?_map, he]; rfl⟩

theorem producers_map (f : ρ → σ) (n : Node ρ) : (n.map f).producers = n.producers.map f := by
  simp only [producers, Table.values, Node.map, Table.entries_map, List.map_map,
    List.filterMap_map, List.map_filterMap]
  congr 1
  funext ⟨name, port⟩
  simp only [Function.comp_apply, edge?_map, Option.map_map]
  rfl

end Node

namespace Store

variable (s : Store)

def Reads (consumer producer : NodeId) : Prop := producer ∈ (s.get consumer).producers

def Reaches : NodeId → NodeId → Prop := Relation.ReflTransGen s.Reads

/-- No edges lead around in a cycle below the root. -/
def Acyclic (root : NodeId) : Prop :=
  ∀ n, s.Reaches root n → ¬ Relation.TransGen s.Reads n n

/-- The ids of instances that a store holds, the only ones that read anything. -/
def heldIds : List NodeId := (List.range s.size).map NodeId.mk

theorem mem_heldIds (id : NodeId) (h : (s.get id).producers ≠ []) : id ∈ s.heldIds := by
  simp only [heldIds, List.mem_map, List.mem_range]
  refine ⟨id.index, ?_, rfl⟩
  by_contra hn
  have hd : s.get id = default := by
    simp only [get, Array.getD_eq_getD_getElem?]
    rw [Array.getElem?_eq_none (by simpa [size] using hn)]
    rfl
  exact h (by rw [hd]; rfl)

theorem length_heldIds : s.heldIds.length < s.size + 1 := by
  simp [heldIds]

end Store

/-! ## Diagrams -/

namespace Diagram

variable (d : Diagram)

/-- The producers that a number reads. -/
def producers (i : Nat) : List Nat := (d.entry i).node.producers

/-- What every diagram of a walk is like. -/
structure WellFormed : Prop where
  nonempty : 0 < d.entries.length
  ident_eq : ∀ i < d.entries.length, (d.entry i).ident = ident (d.entry i).node.name i
  perm : d.order.Perm (List.range d.entries.length)
  ordered : Search.Ordered d.producers d.order
  last : d.order.getLast? = some 0

variable {d}

theorem WellFormed.mem_order (hd : d.WellFormed) {i : Nat} :
    i ∈ d.order ↔ i < d.entries.length := by
  rw [hd.perm.mem_iff, List.mem_range]

theorem WellFormed.nodup_order (hd : d.WellFormed) : d.order.Nodup :=
  hd.perm.nodup_iff.2 List.nodup_range

theorem WellFormed.producer_lt (hd : d.WellFormed) {i j : Nat} (hi : i < d.entries.length)
    (hj : j ∈ d.producers i) : j < d.entries.length :=
  hd.mem_order.1 (hd.ordered.mem (hd.mem_order.2 hi) hj)

theorem WellFormed.edge_lt (hd : d.WellFormed) {i j : Nat} (hi : i < d.entries.length)
    {name o : String} (he : (d.entry i).node.Edge name j o) : j < d.entries.length :=
  hd.producer_lt hi ((Node.mem_producers _ _).2 ⟨name, o, he⟩)

/-- The root comes last, so no node reads it. -/
theorem WellFormed.root_notMem_producers (hd : d.WellFormed) {i : Nat}
    (hi : i < d.entries.length) : 0 ∉ d.producers i := by
  intro h
  have hlt := hd.ordered.idxOf_lt (hd.mem_order.2 hi) h
  obtain ⟨order, ho⟩ := List.getLast?_eq_some_iff.1 hd.last
  have hnd := hd.nodup_order
  rw [ho] at hlt hnd
  have h0 : (0 : Nat) ∉ order := fun h0 => (List.nodup_append.1 hnd).2.2 0 h0 0 (by simp) rfl
  have hmem : i ∈ order ++ [0] := ho ▸ hd.mem_order.2 hi
  rw [List.idxOf_append_of_notMem h0, List.idxOf_cons_self] at hlt
  have := List.idxOf_lt_length_of_mem hmem
  simp only [List.length_append, List.length_singleton] at this
  omega

end Diagram

/-! ## Walks -/

namespace Walk

variable {s : Store} {root : NodeId} {w : Walk}

/-- What a walk lists: all that the root reaches, once each, producers first in the order. -/
structure Explores (s : Store) (root : NodeId) (w : Walk) : Prop where
  nodup : w.ids.Nodup
  mem_ids : ∀ n, n ∈ w.ids ↔ s.Reaches root n
  entries : w.diagram.entries = w.ids.map (entryIn s w.ids)
  head : w.ids.head? = some root
  order : ∃ finished, finished.Perm w.ids ∧ Search.Ordered (fun id => (s.get id).producers) finished
    ∧ finished.getLast? = some root ∧ w.diagram.order = finished.map w.ids.idxOf

/-- What a walk makes of the result of a search. -/
def outcome (s : Store) :
    Except (Search.Cycle NodeId) (Search NodeId) → Except (List String) Walk
  | .error c => .error (c.path.map (identIn s c.found))
  | .ok r => .ok ⟨r.found, r.found.map (entryIn s r.found), r.finished.map r.found.idxOf⟩

theorem discover_eq_outcome : discover s root =
    outcome s (Search.run (fun n => (s.get n).producers) (s.size + 1) root) := by
  unfold discover
  split <;> rename_i h <;> rw [h] <;> rfl

theorem discover_isOk_iff : (∃ w, discover s root = .ok w) ↔ s.Acyclic root := by
  have h := Search.run_isOk_iff root s.mem_heldIds s.length_heldIds
  refine Iff.trans ?_ h
  rw [discover_eq_outcome]
  rcases Search.run (fun n => (s.get n).producers) (s.size + 1) root with c | r <;> simp [outcome]

theorem exists_complete (h : discover s root = .ok w) : ∃ r,
    Search.Complete (fun n => (s.get n).producers) root r ∧ outcome s (.ok r) = .ok w := by
  rw [discover_eq_outcome] at h
  rcases hr : Search.run (fun n => (s.get n).producers) (s.size + 1) root with c | r
  · rw [hr] at h
    cases h
  · exact ⟨r, Search.run_ok root s.mem_heldIds s.length_heldIds hr, hr ▸ h⟩

theorem discover_ok (h : discover s root = .ok w) : Explores s root w := by
  obtain ⟨r, hc, hw⟩ := exists_complete h
  cases hw
  exact ⟨hc.nodup, hc.mem_found, rfl, hc.head, r.finished, hc.perm, hc.ordered, hc.getLast, rfl⟩

namespace Explores

variable (hw : Explores s root w)
include hw

theorem length_entries : w.diagram.entries.length = w.ids.length := by
  rw [hw.entries, List.length_map]

theorem entry_idxOf {n : NodeId} (hn : n ∈ w.ids) :
    w.diagram.entry (w.ids.idxOf n) = entryIn s w.ids n := by
  have hlt := List.idxOf_lt_length_of_mem hn
  simp [Diagram.entry, hw.entries, List.getD_eq_getElem?_getD, hlt]

theorem idxOf_lt {n : NodeId} (hn : n ∈ w.ids) : w.ids.idxOf n < w.diagram.entries.length := by
  rw [hw.length_entries]
  exact List.idxOf_lt_length_of_mem hn

theorem exists_idxOf {i : Nat} (hi : i < w.diagram.entries.length) :
    ∃ n ∈ w.ids, w.ids.idxOf n = i := by
  rw [hw.length_entries] at hi
  exact ⟨w.ids[i], List.getElem_mem hi, hw.nodup.idxOf_getElem i hi⟩

theorem idxOf_root : w.ids.idxOf root = 0 := by
  obtain ⟨l, hl⟩ := List.head?_eq_some_iff.1 hw.head
  rw [hl, List.idxOf_cons_self]

theorem root_mem : root ∈ w.ids := (hw.mem_ids root).2 .refl

theorem producer_mem {c n : NodeId} (hc : c ∈ w.ids) (hn : s.Reads c n) : n ∈ w.ids :=
  (hw.mem_ids n).2 (((hw.mem_ids c).1 hc).tail hn)

theorem edge_idxOf {c n : NodeId} (hc : c ∈ w.ids) (name o : String) :
    (w.diagram.entry (w.ids.idxOf c)).node.Edge name (w.ids.idxOf n) o ↔
      (s.get c).Edge name n o := by
  rw [hw.entry_idxOf hc]
  refine (Node.edge_map _ _ _ _ _).trans ⟨?_, fun h => ⟨n, h, rfl⟩⟩
  rintro ⟨m, he, hm⟩
  have hmem : m ∈ w.ids := hw.producer_mem hc ((Node.mem_producers _ _).2 ⟨name, o, he⟩)
  rwa [← (List.idxOf_inj hmem).1 hm]

theorem design_idxOf {n : NodeId} (hn : n ∈ w.ids) :
    w.diagram.design (w.ids.idxOf n) = s.design n := by
  simp only [Diagram.design, hw.entry_idxOf hn]
  rfl

theorem design_zero : w.diagram.design 0 = s.design root := by
  rw [← hw.idxOf_root, hw.design_idxOf hw.root_mem]

theorem producers_idxOf {n : NodeId} (hn : n ∈ w.ids) :
    w.diagram.producers (w.ids.idxOf n) = (s.get n).producers.map w.ids.idxOf := by
  simp only [Diagram.producers, hw.entry_idxOf hn]
  exact Node.producers_map _ _

theorem reaches_idxOf {n m : NodeId} (hn : n ∈ w.ids) (h : s.Reaches n m) :
    Search.Reaches w.diagram.producers (w.ids.idxOf n) (w.ids.idxOf m) := by
  induction h with
  | refl => exact .refl
  | @tail c m hc hreads ih =>
    have hmem := (hw.mem_ids c).2 (((hw.mem_ids n).1 hn).trans hc)
    refine ih.tail ?_
    rw [Search.Leads, hw.producers_idxOf hmem]
    exact List.mem_map_of_mem hreads

theorem map_idxOf_ids : w.ids.map w.ids.idxOf = List.range w.diagram.entries.length := by
  rw [hw.length_entries]
  refine List.ext_getElem (by simp) fun i h _ => ?_
  rw [List.length_map] at h
  simpa using hw.nodup.idxOf_getElem i h

theorem wellFormed : w.diagram.WellFormed := by
  obtain ⟨finished, hperm, hord, hlast, horder⟩ := hw.order
  refine ⟨?_, fun i hi => ?_, ?_, ?_, ?_⟩
  · exact Nat.zero_lt_of_lt (hw.idxOf_lt hw.root_mem)
  · obtain ⟨n, hn, rfl⟩ := hw.exists_idxOf hi
    rw [hw.entry_idxOf hn]
    rfl
  · rw [horder, ← hw.map_idxOf_ids]
    exact hperm.map _
  · intro pre i post h j hj
    rw [horder, List.map_eq_append_iff] at h
    obtain ⟨pre', rest, hf, rfl, hrest⟩ := h
    obtain ⟨n, post', rfl, rfl, rfl⟩ := List.map_eq_cons_iff.1 hrest
    have hn : n ∈ w.ids := hperm.mem_iff.1 (by simp [hf])
    rw [hw.producers_idxOf hn] at hj
    obtain ⟨m, hm, rfl⟩ := List.mem_map.1 hj
    exact List.mem_map_of_mem (hord pre' n post' hf m hm)
  · rw [horder, List.getLast?_map, hlast, Option.map_some, hw.idxOf_root]

end Explores

end Walk

end ShaderGraph
