import ShaderGraph.Proofs.Discovery
import ShaderGraph.Proofs.Participation

/-!
# The order of a walk

A search finishes, time after time, the first of all that it finds whose way on is finished already
(`Complete.finished_eq_takeReady`): what was found before and is not finished is on the path, so it
waits for something on the path. So the order of a walk is topological with ties broken by the
numbers (`discover_orders`).
-/

namespace ShaderGraph

namespace Search

variable {α : Type} [DecidableEq α] (next : α → List α)

/-- The first found thing that is not listed while everything that it leads to is. -/
def firstReady (found listed : List α) : Option α :=
  found.find? fun a => a ∉ listed ∧ ∀ b ∈ next a, b ∈ listed

/-- Lists the first thing that is ready, a number of times or until there is none. -/
def takeReady (found : List α) : Nat → List α → List α
  | 0, listed => listed
  | n + 1, listed =>
    match firstReady next found listed with
    | some a => takeReady found n (listed ++ [a])
    | none => listed

variable {next}

theorem firstReady_eq_some {found pre post : List α} {a : α} (hnd : (pre ++ a :: post).Nodup)
    (ho : Ordered next (pre ++ a :: post)) (he : Earliest next found (pre ++ a :: post)) :
    firstReady next found pre = some a := by
  obtain ⟨before, after, rfl, hbefore⟩ := he pre a post rfl
  have hnew : a ∉ pre := fun h => (List.nodup_append.1 hnd).2.2 a h a (by simp) rfl
  refine List.find?_eq_some_iff_append.2 ⟨?_, before, after, rfl, fun b hb => ?_⟩
  · simpa using ⟨hnew, ho pre a post rfl⟩
  · simpa [or_iff_not_imp_left] using hbefore b hb

theorem takeReady_eq {found : List α} : ∀ post pre : List α, (pre ++ post).Nodup →
    Ordered next (pre ++ post) → Earliest next found (pre ++ post) →
    takeReady next found post.length pre = pre ++ post
  | [], pre, _, _, _ => by simp [takeReady]
  | a :: post, pre, hnd, ho, he => by
    rw [List.length_cons, takeReady, firstReady_eq_some hnd ho he]
    rw [List.append_cons] at hnd ho he ⊢
    exact takeReady_eq post (pre ++ [a]) hnd ho he

theorem Complete.finished_eq_takeReady {root : α} {s : Search α} (hs : Complete next root s) :
    s.finished = takeReady next s.found s.found.length [] := by
  rw [← hs.perm.length_eq]
  exact (takeReady_eq s.finished [] (hs.perm.nodup_iff.2 hs.nodup) hs.ordered hs.earliest).symm

end Search

namespace Walk

/-- The number of an instance, if the walk has found it. -/
def number? (w : Walk) (n : NodeId) : Option Nat := w.ids.idxOf? n

/-- The instances in dependency order. -/
def topological (w : Walk) : List NodeId := w.diagram.order.filterMap (w.ids[·]?)

/-- Looking up the numbers of found things gives the things back. -/
theorem filterMap_idxOf {ids l : List NodeId} (h : ∀ n ∈ l, n ∈ ids) :
    (l.map ids.idxOf).filterMap (ids[·]?) = l := by
  calc
    (l.map ids.idxOf).filterMap (ids[·]?)
      = l.filterMap fun n => ids[ids.idxOf n]? := List.filterMap_map
    _ = l.filterMap some := List.filterMap_congr fun n hn => List.getElem?_idxOf (h n hn)
    _ = l := List.filterMap_some

variable {s : Store} {root : NodeId} {w : Walk}

namespace Explores

variable (hw : Explores s root w)
include hw

theorem number?_eq_some_iff (n : NodeId) (i : Nat) :
    w.number? n = some i ↔ w.ids[i]? = some n := by
  rw [number?, List.idxOf?_eq_some_iff, List.getElem?_eq_some_iff]
  constructor
  · rintro ⟨hi, h, -⟩
    exact ⟨hi, h⟩
  · rintro ⟨hi, rfl⟩
    refine ⟨hi, rfl, fun j hj he => ?_⟩
    have := hw.nodup.getElem_inj_iff.1 he
    omega

theorem number?_of_mem {n : NodeId} (hn : n ∈ w.ids) : w.number? n = some (w.ids.idxOf n) :=
  (hw.number?_eq_some_iff n _).2 (List.getElem?_idxOf hn)

theorem idxOf_eq {n : NodeId} {i : Nat} (hi : w.ids[i]? = some n) : w.ids.idxOf n = i := by
  have hnumber := (hw.number?_eq_some_iff n i).2 hi
  rw [hw.number?_of_mem (List.mem_of_getElem? hi)] at hnumber
  exact Option.some.inj hnumber

theorem topological_perm : w.topological.Perm w.ids := by
  obtain ⟨finished, hperm, -, -, horder⟩ := hw.order
  rwa [topological, horder, filterMap_idxOf fun n hn => hperm.mem_iff.1 hn]

theorem order_eq : w.diagram.order = w.topological.map w.ids.idxOf := by
  obtain ⟨finished, hperm, -, -, horder⟩ := hw.order
  rw [topological, horder, filterMap_idxOf fun n hn => hperm.mem_iff.1 hn]

/-- An entry reads the numbers of what its instance reads. -/
theorem edge_iff_number? {n : NodeId} {i : Nat} (hi : w.ids[i]? = some n) (name : String)
    (j : Nat) (o : String) : (w.diagram.entry i).node.Edge name j o ↔
      ∃ m, (s.get n).Edge name m o ∧ w.number? m = some j := by
  have hn : n ∈ w.ids := List.mem_of_getElem? hi
  rw [← hw.idxOf_eq hi, hw.entry_idxOf hn]
  refine (Node.edge_map _ _ _ _ _).trans (exists_congr fun m => and_congr_right fun he => ?_)
  have hm : m ∈ w.ids := hw.producer_mem hn ((Node.mem_producers _ _).2 ⟨name, o, he⟩)
  rw [hw.number?_of_mem hm, Option.some_inj]

end Explores

theorem topological_eq {r : Search NodeId}
    (hc : Search.Complete (fun n => (s.get n).producers) root r)
    (hw : outcome s (.ok r) = .ok w) : w.topological = r.finished := by
  cases hw
  exact filterMap_idxOf fun n hn => hc.perm.mem_iff.1 hn

/-- Below a root without cycles, a walk numbers what the root reaches, the root first, and looks up
nothing else. Its order lists every number once, producers first and the root last; it takes the
smallest number again and again among those that are not listed while all their producers are. -/
theorem discover_orders (h : s.Acyclic root) :
    ∃ w, discover s root = .ok w ∧
      w.ids.Nodup ∧ (∀ n, n ∈ w.ids ↔ s.Reaches root n) ∧ w.ids[0]? = some root ∧
      (∀ n i, w.number? n = some i ↔ w.ids[i]? = some n) ∧
      w.diagram.entries.length = w.ids.length ∧
      (∀ i n, w.ids[i]? = some n →
        (w.diagram.entry i).ident = ident (s.design n).name i ∧
        w.diagram.design i = s.design n ∧
        ∀ name j o, (w.diagram.entry i).node.Edge name j o ↔
          ∃ m, (s.get n).Edge name m o ∧ w.number? m = some j) ∧
      w.diagram.order.Perm (List.range w.ids.length) ∧ w.topological.Perm w.ids ∧
      (∀ pre n post, w.topological = pre ++ n :: post → ∀ m, s.Reads n m → m ∈ pre) ∧
      w.topological.getLast? = some root ∧
      w.topological =
        Search.takeReady (fun n => (s.get n).producers) w.ids w.ids.length [] := by
  obtain ⟨w, hd⟩ := discover_isOk_iff.2 h
  have hw := discover_ok hd
  obtain ⟨r, hc, hr⟩ := exists_complete hd
  have htop := topological_eq hc hr
  have hids : w.ids = r.found := by
    cases hr
    rfl
  have hperm := hw.wellFormed.perm
  rw [hw.length_entries] at hperm
  refine ⟨w, hd, hw.nodup, hw.mem_ids, ?_, hw.number?_eq_some_iff, hw.length_entries,
    fun i n hi => ?_, hperm, ?_, ?_, ?_, ?_⟩
  · rw [← List.head?_eq_getElem?, hw.head]
  · have hn : n ∈ w.ids := List.mem_of_getElem? hi
    refine ⟨?_, ?_, hw.edge_iff_number? hi⟩
    · rw [← hw.idxOf_eq hi, hw.entry_idxOf hn]
      rfl
    · rw [← hw.idxOf_eq hi, hw.design_idxOf hn]
  · rw [htop, hids]
    exact hc.perm
  · rw [htop]
    exact hc.ordered
  · rw [htop]
    exact hc.getLast
  · rw [htop, hids]
    exact hc.finished_eq_takeReady

theorem discover_orders_pulse : pulse.Acyclic ⟨3⟩ ∧ ∃ w, discover pulse ⟨3⟩ = .ok w ∧
    w.topological = [⟨0⟩, ⟨1⟩, ⟨2⟩, ⟨3⟩] ∧ w.topological =
      Search.takeReady (fun n => (pulse.get n).producers) w.ids w.ids.length [] := by
  obtain ⟨w, hd, -, -, -, -, -, -, -, -, -, -, hready⟩ := discover_orders pulse_acyclic
  refine ⟨pulse_acyclic, w, hd, ?_, hready⟩
  have hw : (discover pulse ⟨3⟩).toOption.map topological = some [⟨0⟩, ⟨1⟩, ⟨2⟩, ⟨3⟩] := rfl
  rw [hd] at hw
  exact Option.some.inj hw

end Walk

end ShaderGraph
