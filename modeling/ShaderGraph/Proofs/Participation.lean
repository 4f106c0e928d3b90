import ShaderGraph.Graph.Participation
import ShaderGraph.Library.Masters
import ShaderGraph.Proofs.Discovery

/-!
# Which nodes take part in which stage

The single pass over the order, consumers first, solves the rules of participation: a node takes
part in a stage exactly if it has a body for it or if what some node reads from it there makes it
take part (`shares_settled`). Once a node is settled nobody else reads from it, so what it demands
is final.
-/

namespace ShaderGraph

/-! ## One demand -/

namespace Stages

@[simp] theorem contains_none (t : Stage) : Stages.none.contains t = false := by
  cases t <;> rfl

@[simp] theorem contains_insert (s : Stages) (t t' : Stage) :
    (s.insert t).contains t' = true ↔ t' = t ∨ s.contains t' = true := by
  cases t <;> cases t' <;> simp [insert, contains]

theorem mem_toList (s : Stages) (t : Stage) : t ∈ s.toList ↔ s.contains t = true := by
  simp only [toList, List.mem_filter, and_iff_right_iff_imp]
  intro _
  cases t <;> simp [Stage.all]

end Stages

namespace Design

variable (d : Design)

/-- The stage that produces what a stage reads from a node of the design. -/
def sourceStage (st : Stage) : Stage :=
  if st = .fragment ∧ d.interpolated then .vertex else st

/-- Whether the input of a name is read in a stage if its node takes part in `stages`. -/
def ReadsIn (name : String) (stages : Stages) (st : Stage) : Prop :=
  if d.isMaster then ∃ slot, d.slots.get? name = some slot ∧ slot.stage = st
  else stages.contains st = true

end Design

namespace Share

theorem contains_withBodies (share : Share) (d : Design) (t : Stage) :
    (share.withBodies d).stages.contains t = true ↔
      (d.code t).body.isSome = true ∨ share.stages.contains t = true := by
  simp only [withBodies, Stage.all, List.foldl_cons, List.foldl_nil]
  by_cases hv : (d.code .vertex).body.isSome = true <;>
    by_cases hf : (d.code .fragment).body.isSome = true <;> cases t <;> simp [hv, hf]

theorem contains_demanded (share : Share) (d : Design) (st : Stage) (o : String) (t : Stage) :
    (share.demanded d st o).stages.contains t = true ↔
      t = d.sourceStage st ∨ share.stages.contains t = true := by
  simp only [demanded, Design.sourceStage]
  split_ifs <;> simp

theorem mem_varyings_demanded (share : Share) (d : Design) (st : Stage) (o o' : String) :
    o' ∈ (share.demanded d st o).varyings ↔
      (st = .fragment ∧ d.interpolated = true ∧ o' = o) ∨ o' ∈ share.varyings := by
  simp only [demanded]
  split_ifs with h₁ h₂
  · simp only [h₁, true_and]
    constructor
    · exact .inr
    · rintro (rfl | h)
      · exact h₂
      · exact h
  · simp only [h₁, true_and, List.mem_append, List.mem_singleton, or_comm]
  · simp only [← and_assoc, h₁, false_and, false_or]

theorem nodup_varyings_demanded {share : Share} (h : share.varyings.Nodup) (d : Design)
    (st : Stage) (o : String) : (share.demanded d st o).varyings.Nodup := by
  simp only [demanded]
  split_ifs with h₁ h₂
  · exact h
  · simpa using List.Nodup.concat h₂ h
  · exact h

/-- The share after several demands, of which all are for the same node. -/
def demandedAll (share : Share) (d : Design) (ms : List Demand) : Share :=
  ms.foldl (fun share m => share.demanded d m.stage m.output) share

theorem contains_demandedAll (d : Design) (t : Stage) : ∀ (ms : List Demand) (share : Share),
    (share.demandedAll d ms).stages.contains t = true ↔
      share.stages.contains t = true ∨ ∃ m ∈ ms, t = d.sourceStage m.stage
  | [], share => by simp [demandedAll]
  | m :: ms, share => by
    have ih := contains_demandedAll d t ms (share.demanded d m.stage m.output)
    simp only [demandedAll, List.foldl_cons] at ih ⊢
    rw [ih, contains_demanded]
    simp only [List.mem_cons, exists_eq_or_imp]
    tauto

theorem mem_varyings_demandedAll (d : Design) (o : String) :
    ∀ (ms : List Demand) (share : Share),
      o ∈ (share.demandedAll d ms).varyings ↔ o ∈ share.varyings ∨
        ∃ m ∈ ms, m.stage = .fragment ∧ d.interpolated = true ∧ o = m.output
  | [], share => by simp [demandedAll]
  | m :: ms, share => by
    have ih := mem_varyings_demandedAll d o ms (share.demanded d m.stage m.output)
    simp only [demandedAll, List.foldl_cons] at ih ⊢
    rw [ih, mem_varyings_demanded]
    simp only [List.mem_cons, exists_eq_or_imp]
    tauto

theorem nodup_varyings_demandedAll (d : Design) : ∀ (ms : List Demand) {share : Share},
    share.varyings.Nodup → (share.demandedAll d ms).varyings.Nodup
  | [], _, h => h
  | m :: ms, _, h =>
    nodup_varyings_demandedAll d ms (nodup_varyings_demanded h d m.stage m.output)

end Share

/-! ## One node -/

namespace Diagram

variable (d : Diagram)

theorem mem_demands (i : Nat) (stages : Stages) (n : Nat) (st : Stage) (o : String) :
    ⟨n, st, o⟩ ∈ d.demands i stages ↔
      ∃ name, (d.entry i).node.Edge name n o ∧ (d.design i).ReadsIn name stages st := by
  have hread : ∀ name, st ∈ (if (d.entry i).node.design.isMaster then
        (((d.entry i).node.design.slots.get? name).map Slot.stage).toList else stages.toList) ↔
      (d.design i).ReadsIn name stages st := by
    intro name
    by_cases h : (d.entry i).node.design.isMaster = true
    · simp [Design.ReadsIn, design, h]
    · simp [Design.ReadsIn, design, h, Stages.mem_toList]
  simp only [demands, List.mem_flatMap, Prod.exists, Node.Edge, ← hread]
  constructor
  · rintro ⟨name, port, hm, h⟩
    rcases he : port.edge? with _ | ⟨producer, output⟩ <;> rw [he] at h
    · simp at h
    · simp only [List.mem_map, Demand.mk.injEq] at h
      obtain ⟨_, h, rfl, rfl, rfl⟩ := h
      exact ⟨name, ⟨port, hm, he⟩, h⟩
  · rintro ⟨name, ⟨port, hm, he⟩, h⟩
    refine ⟨name, port, hm, ?_⟩
    simp only [he, List.mem_map]
    exact ⟨st, h, rfl⟩

theorem getD_modify {α : Type} (l : List α) (i j : Nat) (f : α → α) (a : α) (hj : j < l.length) :
    (l.modify i f).getD j a = if i = j then f (l.getD j a) else l.getD j a := by
  simp only [List.getD_eq_getElem?_getD, List.getElem?_modify]
  split_ifs <;> simp [hj]

theorem length_foldl_demand : ∀ (ms : List Demand) (shares : List Share),
    (ms.foldl d.demand shares).length = shares.length
  | [], _ => rfl
  | m :: ms, shares => by
    rw [List.foldl_cons, length_foldl_demand ms, demand, List.length_modify]

/-- Demands change the shares of their producers only. -/
theorem getD_foldl_demand {n : Nat} : ∀ (ms : List Demand) (shares : List Share),
    n < shares.length → (ms.foldl d.demand shares).getD n default =
      (shares.getD n default).demandedAll (d.design n) (ms.filter (·.producer = n))
  | [], _, _ => rfl
  | m :: ms, shares, hn => by
    have hn' : n < (d.demand shares m).length := by rwa [demand, List.length_modify]
    rw [List.foldl_cons, getD_foldl_demand ms _ hn', demand, getD_modify _ _ _ _ _ hn,
      List.filter_cons]
    by_cases hm : m.producer = n
    · subst hm
      simp [Share.demandedAll]
    · simp [hm]

/-- What the share of a node becomes when a node is settled. -/
theorem getD_settle {shares : List Share} {i n : Nat} (hn : n < shares.length) :
    (d.settle shares i).getD n default =
      (if i = n then (shares.getD n default).withBodies (d.design n)
        else shares.getD n default).demandedAll (d.design n)
      ((d.demands i ((shares.modify i fun share => share.withBodies (d.design i)).getD i
        default).stages).filter (·.producer = n)) := by
  rw [settle, getD_foldl_demand _ _ _ (by rwa [List.length_modify]), getD_modify _ _ _ _ _ hn]
  split_ifs with h
  · rw [h]
  · rfl

/-! ## The whole pass -/

/-- An output of `n` is read in a stage by one of the readers. -/
def ReadIn (readers : List Nat) (shares : List Share) (n : Nat) (o : String) (st : Stage) :
    Prop :=
  ∃ c ∈ readers, ∃ name, (d.entry c).node.Edge name n o ∧
    (d.design c).ReadsIn name (shares.getD c default).stages st

/-- What the shares say when some nodes are settled. -/
structure Settled (done : List Nat) (shares : List Share) : Prop where
  length : shares.length = d.entries.length
  contains : ∀ n < d.entries.length, ∀ t, (shares.getD n default).stages.contains t = true ↔
    (n ∈ done ∧ ((d.design n).code t).body.isSome = true) ∨
      ∃ o st, d.ReadIn done shares n o st ∧ t = (d.design n).sourceStage st
  varyings : ∀ n < d.entries.length, ∀ o, o ∈ (shares.getD n default).varyings ↔
    (d.design n).interpolated = true ∧ d.ReadIn done shares n o .fragment
  nodup : ∀ n < d.entries.length, (shares.getD n default).varyings.Nodup

variable {d}

theorem settled_nil : d.Settled [] (List.replicate d.entries.length default) := by
  have hdef : ∀ n < d.entries.length,
      (List.replicate d.entries.length (default : Share)).getD n default = default :=
    fun n hn => by simp [List.getD_eq_getElem?_getD, hn]
  refine ⟨List.length_replicate, fun n hn t => ?_, fun n hn o => ?_, fun n hn => ?_⟩
  · have hnone : (default : Share).stages.contains t = false := Stages.contains_none t
    rw [hdef n hn, hnone]
    simp [ReadIn]
  · rw [hdef n hn]
    simp only [ReadIn, List.not_mem_nil, false_and, exists_const, and_false, iff_false]
    exact List.not_mem_nil
  · rw [hdef n hn]
    exact List.nodup_nil

section Step

variable {done : List Nat} {i : Nat} {shares : List Share}
  (hfree : ∀ c ∈ done ++ [i], c ∉ d.producers i) (hs : d.Settled done shares)
include hfree hs

/-- The share of a node that is settled or being settled does not change any more. -/
theorem getD_settle_of_free {c : Nat} (hc : c ∈ done ++ [i]) (hlt : c < d.entries.length) :
    (d.settle shares i).getD c default =
      if i = c then (shares.getD c default).withBodies (d.design c) else shares.getD c default := by
  rw [d.getD_settle (by rwa [hs.length])]
  have : (d.demands i ((shares.modify i fun share => share.withBodies (d.design i)).getD i
      default).stages).filter (·.producer = c) = [] := by
    simp only [List.filter_eq_nil_iff, decide_eq_true_eq]
    rintro ⟨n, st, o⟩ hm rfl
    obtain ⟨name, he, -⟩ := (d.mem_demands _ _ _ _ _).1 hm
    exact hfree _ hc ((Node.mem_producers _ _).2 ⟨name, o, he⟩)
  rw [this]
  rfl

variable (hi : i < d.entries.length) (hnew : i ∉ done)
include hi hnew

theorem readIn_settle (hdone : ∀ c ∈ done, c < d.entries.length) (n : Nat) (o : String)
    (st : Stage) : d.ReadIn (done ++ [i]) (d.settle shares i) n o st ↔
      d.ReadIn done shares n o st ∨ ⟨n, st, o⟩ ∈ d.demands i
        ((shares.modify i fun share => share.withBodies (d.design i)).getD i default).stages := by
  have hold : ∀ c ∈ done, (d.settle shares i).getD c default = shares.getD c default := by
    intro c hc
    rw [getD_settle_of_free hfree hs (by simp [hc]) (hdone c hc), if_neg]
    exact fun h => hnew (h ▸ hc)
  have hlast : (d.settle shares i).getD i default =
      (shares.modify i fun share => share.withBodies (d.design i)).getD i default := by
    rw [getD_settle_of_free hfree hs (by simp) hi, getD_modify _ _ _ _ _ (by rwa [hs.length])]
  simp only [ReadIn, List.mem_append, List.mem_singleton, or_and_right, exists_or, exists_eq_left,
    hlast, mem_demands]
  refine or_congr (exists_congr fun c => ?_) Iff.rfl
  exact and_congr_right fun hc => by rw [hold c hc]

theorem settle_settled (hdone : ∀ c ∈ done, c < d.entries.length) :
    d.Settled (done ++ [i]) (d.settle shares i) := by
  have hread := readIn_settle hfree hs hi hnew hdone
  have hlen : ∀ n < d.entries.length, n < shares.length := fun n hn => by rwa [hs.length]
  refine ⟨?_, fun n hn t => ?_, fun n hn o => ?_, fun n hn => ?_⟩
  · rw [settle, length_foldl_demand, List.length_modify, hs.length]
  · have hold : (if i = n then (shares.getD n default).withBodies (d.design n)
        else shares.getD n default).stages.contains t = true ↔
          (n ∈ done ++ [i] ∧ ((d.design n).code t).body.isSome = true) ∨
            ∃ o st, d.ReadIn done shares n o st ∧ t = (d.design n).sourceStage st := by
      rw [List.mem_append, List.mem_singleton]
      split_ifs with h
      · rw [Share.contains_withBodies, hs.contains n hn]
        simp only [h]
        tauto
      · rw [hs.contains n hn]
        simp only [Ne.symm h, or_false]
    rw [d.getD_settle (hlen n hn), Share.contains_demandedAll, hold, or_assoc]
    simp only [hread, or_and_right, exists_or, List.mem_filter, decide_eq_true_eq]
    refine or_congr Iff.rfl (or_congr Iff.rfl ?_)
    constructor
    · rintro ⟨⟨_, st, o⟩, ⟨hm, rfl⟩, ht⟩
      exact ⟨o, st, hm, ht⟩
    · rintro ⟨o, st, hm, ht⟩
      exact ⟨⟨n, st, o⟩, ⟨hm, rfl⟩, ht⟩
  · have hold : (if i = n then (shares.getD n default).withBodies (d.design n)
        else shares.getD n default).varyings = (shares.getD n default).varyings := by
      split_ifs <;> rfl
    rw [d.getD_settle (hlen n hn), Share.mem_varyings_demandedAll, hold, hs.varyings n hn,
      hread, and_or_left]
    simp only [List.mem_filter, decide_eq_true_eq]
    refine or_congr Iff.rfl ?_
    constructor
    · rintro ⟨⟨_, _, _⟩, ⟨hm, rfl⟩, rfl, hint, rfl⟩
      exact ⟨hint, hm⟩
    · rintro ⟨hint, hm⟩
      exact ⟨_, ⟨hm, rfl⟩, rfl, hint, rfl⟩
  · rw [d.getD_settle (hlen n hn)]
    apply Share.nodup_varyings_demandedAll
    split_ifs
    · exact hs.nodup n hn
    · exact hs.nodup n hn

end Step

/-- The pass settles the nodes from the end of the order to its start. -/
theorem foldl_settle_settled (hd : d.WellFormed) : ∀ rest done : List Nat,
    d.order.reverse = done ++ rest → ∀ shares, d.Settled done shares →
      d.Settled d.order.reverse (rest.foldl d.settle shares)
  | [], done, h, shares, hs => by
    rw [h, List.append_nil]
    exact hs
  | i :: rest, done, h, shares, hs => by
    have hnd : (done ++ i :: rest).Nodup := h ▸ List.nodup_reverse.2 hd.nodup_order
    have horder : d.order = rest.reverse ++ i :: done.reverse := by
      rw [← List.reverse_reverse d.order, h]
      simp
    have hlt : ∀ c ∈ done ++ i :: rest, c < d.entries.length :=
      fun c hc => hd.mem_order.1 (List.mem_reverse.1 (h ▸ hc))
    have hfree : ∀ c ∈ done ++ [i], c ∉ d.producers i := by
      intro c hc hp
      have hrest : c ∈ rest := List.mem_reverse.1 (hd.ordered _ _ _ horder c hp)
      have hdis : List.Disjoint (done ++ [i]) rest :=
        List.disjoint_of_nodup_append (by simpa using hnd)
      exact hdis hc hrest
    rw [List.foldl_cons]
    refine foldl_settle_settled hd rest (done ++ [i]) (by rw [h]; simp) _ ?_
    refine settle_settled hfree hs (hlt i (by simp)) ?_ fun c hc => hlt c (by simp [hc])
    exact fun hi => (List.nodup_append.1 hnd).2.2 i hi i (by simp) rfl

theorem shares_settled (hd : d.WellFormed) : d.Settled d.order.reverse d.shares :=
  foldl_settle_settled hd _ [] rfl _ settled_nil

end Diagram

/-! ## Walks -/

namespace Walk

/-- The share of an instance that a walk has numbered. -/
def share (w : Walk) (n : NodeId) : Share :=
  (Plan.ofDiagram w.diagram).share (w.ids.idxOf n)

/-- An output of an instance is read in a stage by an instance that the walk has numbered. -/
def ReadIn (s : Store) (w : Walk) (n : NodeId) (o : String) (st : Stage) : Prop :=
  ∃ c ∈ w.ids, ∃ name, (s.get c).Edge name n o ∧
    (s.design c).ReadsIn name (w.share c).stages st

variable {s : Store} {root : NodeId} {w : Walk}

theorem Explores.readIn_idxOf (hw : Explores s root w) (n : NodeId) (o : String) (st : Stage) :
    w.diagram.ReadIn w.diagram.order.reverse w.diagram.shares (w.ids.idxOf n) o st ↔
      ReadIn s w n o st := by
  simp only [Diagram.ReadIn, List.mem_reverse, hw.wellFormed.mem_order]
  constructor
  · rintro ⟨_, hlt, name, he, hr⟩
    obtain ⟨c, hc, rfl⟩ := hw.exists_idxOf hlt
    rw [hw.edge_idxOf hc] at he
    rw [hw.design_idxOf hc] at hr
    exact ⟨c, hc, name, he, hr⟩
  · rintro ⟨c, hc, name, he, hr⟩
    refine ⟨_, hw.idxOf_lt hc, name, (hw.edge_idxOf hc name o).2 he, ?_⟩
    rw [hw.design_idxOf hc]
    exact hr

/-- Below a root without cycles, an instance takes part in a stage exactly if it has a body for
the stage or an output of it is read in a stage that this one produces values for; it hands over
exactly the outputs that the fragment stage reads, if it is interpolated, and none otherwise. -/
theorem participation_exact (h : s.Acyclic root) :
    ∃ w, discover s root = .ok w ∧ (∀ n, n ∈ w.ids ↔ s.Reaches root n) ∧
      (∀ c ∈ w.ids, ∀ n ∈ (s.get c).producers, n ∈ w.ids) ∧
      ∀ n ∈ w.ids,
        (∀ t, (w.share n).stages.contains t = true ↔
          ((s.design n).code t).body.isSome = true ∨
            ∃ o st, ReadIn s w n o st ∧ t = (s.design n).sourceStage st) ∧
        ((s.design n).interpolated = false → (w.share n).varyings = []) ∧
        ((s.design n).interpolated = true → (w.share n).varyings.Nodup ∧
          ∀ o, o ∈ (w.share n).varyings ↔ ReadIn s w n o .fragment) := by
  obtain ⟨w, hd⟩ := discover_isOk_iff.2 h
  have hw := discover_ok hd
  have hs := Diagram.shares_settled hw.wellFormed
  refine ⟨w, hd, hw.mem_ids, fun c hc n hn => hw.producer_mem hc hn, fun n hn => ?_⟩
  have hlt := hw.idxOf_lt hn
  have hvar : ∀ o, o ∈ (w.share n).varyings ↔
      (s.design n).interpolated = true ∧ ReadIn s w n o .fragment := by
    intro o
    rw [← hw.readIn_idxOf, ← hw.design_idxOf hn]
    exact hs.varyings _ hlt o
  refine ⟨fun t => ?_, fun hi => ?_, fun hi => ⟨hs.nodup _ hlt, fun o => ?_⟩⟩
  · have hin : w.ids.idxOf n ∈ w.diagram.order.reverse :=
      List.mem_reverse.2 (hw.wellFormed.mem_order.2 hlt)
    refine (hs.contains _ hlt t).trans ?_
    simp only [hin, true_and, hw.readIn_idxOf, hw.design_idxOf hn]
  · refine List.eq_nil_iff_forall_not_mem.2 fun o ho => ?_
    rw [hvar o, hi] at ho
    exact absurd ho.1 (by simp)
  · rw [hvar o, hi]
    simp

end Walk

section Pulse

open Library

/-- The world position times the clock, written to both slots of a material. -/
def pulse : Store :=
  let product := binaryTemplate "Multiply" .vector3 "*"
    |>.input "a" ((Port.ofKind .vector3).wired (.edge ⟨0⟩ "value"))
    |>.input "b" ⟨.vector3, some (.edge ⟨1⟩ "value"), true, false⟩
  let material := plainMaterialTemplate
    |>.input "position" ⟨.vector3, some (.edge ⟨2⟩ "value"), false, true⟩
    |>.input "color" ⟨.color, some (.edge ⟨2⟩ "value"), false, true⟩
  ⟨#[⟨worldPositionTemplate, none⟩, ⟨timeTemplate, none⟩, ⟨product, none⟩, ⟨material, none⟩]⟩

theorem pulse_acyclic : pulse.Acyclic ⟨3⟩ :=
  (Search.run_isOk_iff _ pulse.mem_heldIds pulse.length_heldIds).1 ⟨_, rfl⟩

theorem participation_exact_pulse :
    pulse.Acyclic ⟨3⟩ ∧ ∃ w, Walk.discover pulse ⟨3⟩ = .ok w ∧ ∀ n ∈ w.ids,
      (∀ t, (w.share n).stages.contains t = true ↔
        ((pulse.design n).code t).body.isSome = true ∨
          ∃ o st, Walk.ReadIn pulse w n o st ∧ t = (pulse.design n).sourceStage st) ∧
      ((pulse.design n).interpolated = true →
        ∀ o, o ∈ (w.share n).varyings ↔ Walk.ReadIn pulse w n o .fragment) := by
  obtain ⟨w, hd, -, -, hw⟩ := Walk.participation_exact pulse_acyclic
  exact ⟨pulse_acyclic, w, hd, fun n hn => ⟨(hw n hn).1, fun hi => ((hw n hn).2.2 hi).2⟩⟩

end Pulse

end ShaderGraph
