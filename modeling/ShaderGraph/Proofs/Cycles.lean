import ShaderGraph.Library.Math
import ShaderGraph.Proofs.Naming

/-!
# How a walk ends

On every store the search behind a walk ends with one result, and not because its depth runs out.
The walk exists exactly if no cycle is below the root, and what is reported otherwise are the
identifiers around a cycle of edges, each node once (`discover_decides`).
-/

namespace ShaderGraph

theorem ident_inj {a b : String} {m n : Nat} (h : ident a m = ident b n) : m = n := by
  have h' : (ident a m).toList ++ ['_'] = (ident b n).toList ++ ['_'] := by rw [h]
  exact (ident_append_inj h').1

namespace Walk

/-- The identifiers around a cycle of edges through found nodes, first and last the same. -/
def NamesCycle (s : Store) (found : List NodeId) (path : List String) : Prop :=
  ∃ a between, path = (a :: between ++ [a]).map (identIn s found) ∧ (a :: between).Nodup ∧
    (∀ n ∈ a :: between, n ∈ found) ∧ (a :: between ++ [a]).IsChain
      fun consumer producer => ∃ name output, (s.get consumer).Edge name producer output

variable {s : Store} {root : NodeId}

theorem identIn_inj {found : List NodeId} {m n : NodeId} (hm : m ∈ found)
    (h : identIn s found m = identIn s found n) : m = n :=
  (List.idxOf_inj hm).1 (ident_inj h)

theorem namesCycle {c : Search.Cycle NodeId}
    (hc : c.Genuine (fun n => (s.get n).producers) root) :
    NamesCycle s c.found (c.path.map (identIn s c.found)) := by
  obtain ⟨a, between, hpath, hnd⟩ := hc.closed
  refine ⟨a, between, by rw [hpath], hnd, fun n hn => hc.found n ?_, ?_⟩
  · rw [hpath]
    exact List.mem_append_left _ hn
  · rw [← hpath]
    exact hc.leads.imp fun consumer producer => (Node.mem_producers _ _).1

namespace NamesCycle

variable {found : List NodeId} {path : List String} (h : NamesCycle s found path)
include h

theorem two_le_length : 2 ≤ path.length := by
  obtain ⟨a, between, rfl, -⟩ := h
  simp

theorem head_eq_getLast : path.head? = path.getLast? := by
  obtain ⟨a, between, rfl, -⟩ := h
  rw [List.map_append, List.map_singleton, List.getLast?_concat]
  rfl

theorem nodup_dropLast : path.dropLast.Nodup := by
  obtain ⟨a, between, rfl, hnd, hfound, -⟩ := h
  rw [← List.map_dropLast, List.dropLast_concat]
  exact hnd.map_on fun m hm n _ he => identIn_inj (hfound m hm) he

end NamesCycle

/-- The search behind a walk has one result, which decides what the walk is. The walk exists
exactly if no cycle is below the root; otherwise the report has the identifiers around a cycle
through nodes that the search has found below the root. -/
theorem discover_decides (s : Store) (root : NodeId) :
    ∃ r, (∀ r', Search.Runs (fun n => (s.get n).producers) [] [root] .start r' ↔ r' = r) ∧
      discover s root = outcome s r ∧
      ((∃ w, discover s root = .ok w) ↔ s.Acyclic root) ∧
      ∀ path, discover s root = .error path → ∃ c, r = .error c ∧
        c.found.Nodup ∧ (∀ n ∈ c.found, s.Reaches root n) ∧ NamesCycle s c.found path ∧
        2 ≤ path.length ∧ path.head? = path.getLast? ∧ path.dropLast.Nodup := by
  have hruns := Search.run_runs root s.mem_heldIds s.length_heldIds
  refine ⟨_, fun r' => ⟨fun h => h.unique hruns, fun h => h ▸ hruns⟩, discover_eq_outcome,
    discover_isOk_iff, fun path hpath => ?_⟩
  rw [discover_eq_outcome] at hpath
  rcases hr : Search.run (fun n => (s.get n).producers) (s.size + 1) root with c | r <;>
    rw [hr] at hpath <;> cases hpath
  have hc := Search.run_error root s.mem_heldIds s.length_heldIds hr
  have hnames := namesCycle hc
  exact ⟨c, rfl, hc.nodup, hc.reached, hnames, hnames.two_le_length, hnames.head_eq_getLast,
    hnames.nodup_dropLast⟩

end Walk

section Ring

open Library

/-- A sum reads another one twice, which reads it back. -/
def ring : Store :=
  let sum (a b : Source NodeId) : Template := binaryTemplate "Add" .float "+"
    |>.input "a" ((Port.ofKind .float).wired a)
    |>.input "b" ((Port.ofKind .float).wired b)
  ⟨#[⟨sum (.edge ⟨1⟩ "value") (.edge ⟨1⟩ "value"), none⟩,
    ⟨sum (.edge ⟨2⟩ "value") (.edge ⟨0⟩ "value"), none⟩,
    ⟨sum (.raw "1.0") (.raw "2.0"), none⟩]⟩

theorem discover_decides_ring : Walk.discover ring ⟨0⟩ = .error ["Add_0", "Add_1", "Add_0"] ∧
    ¬ ring.Acyclic ⟨0⟩ ∧ ∃ found : List NodeId, found.Nodup ∧
      (∀ n ∈ found, ring.Reaches ⟨0⟩ n) ∧
      Walk.NamesCycle ring found ["Add_0", "Add_1", "Add_0"] := by
  have h : Walk.discover ring ⟨0⟩ = .error ["Add_0", "Add_1", "Add_0"] := rfl
  obtain ⟨r, -, -, hok, hcycle⟩ := Walk.discover_decides ring ⟨0⟩
  obtain ⟨c, -, hnd, hreached, hnames, -⟩ := hcycle _ h
  refine ⟨h, fun hacyclic => ?_, c.found, hnd, hreached, hnames⟩
  obtain ⟨w, hw⟩ := hok.2 hacyclic
  rw [h] at hw
  cases hw

end Ring

end ShaderGraph
