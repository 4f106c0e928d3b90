import ShaderGraph.Proofs.Readiness
import ShaderGraph.Proofs.Wiring

/-!
# Nodes that are added

What building adds to a store: different ids (`Store.NewIds`), and nodes without clocks that read
nothing but each other and what they may read (`Store.AddsUntimed`). A checked instance is one node
more, and a stack whose filters are new adds its two ends and lets the filters read what comes
before them (`Stack.Chains.addsUntimed`).
-/

namespace ShaderGraph

theorem Node.eq_add_of_returns {t t' : Template} {props : Props} {w w' : Workspace} {id : NodeId}
    (hprops : t.withProps props = .ok t') (h : (t.instantiateWith props).Returns w id w') :
    id = ⟨w.store.size⟩ ∧ w'.store = (w.store.add ⟨t', none⟩).2 := by
  obtain ⟨_, hprops', -, rfl, rfl⟩ := returns_instantiateWith_iff.1 h
  cases hprops.symm.trans hprops'
  exact ⟨rfl, rfl⟩

theorem Build.returns_primaryEdge_iff {id : NodeId} {e : Source NodeId} {w w' : Workspace} :
    (primaryEdge id).Returns w e w' ↔ e = w.store.primaryEdge id ∧ w' = w := by
  change (Except.ok (w.store.primaryEdge id), w) = (Except.ok e, w') ↔ _
  simp only [Prod.mk.injEq, Except.ok.injEq, eq_comm]

namespace Store

theorem holds_add_self (s : Store) (i : Instance) : (s.add i).2.Holds ⟨s.size⟩ := by
  rw [Holds, size_add]
  exact Nat.lt_succ_self _

theorem Grows.holds {s s' : Store} (h : s.Grows s') {n : NodeId} (hn : s.Holds n) : s'.Holds n :=
  Nat.lt_of_lt_of_le hn h.size

/-- Different ids that are given out while the size of a store grows. -/
structure NewIds (low high : Nat) (ids : List NodeId) : Prop where
  le : low ≤ high
  nodup : ids.Nodup
  bounds : ∀ id ∈ ids, low ≤ id.index ∧ id.index < high

namespace NewIds

variable {low mid high : Nat} {ids ids' : List NodeId}

theorem nil (h : low ≤ high) : NewIds low high [] := ⟨h, List.nodup_nil, List.forall_mem_nil _⟩

theorem single (low : Nat) : NewIds low (low + 1) [⟨low⟩] :=
  ⟨Nat.le_succ low, List.nodup_singleton _,
    List.forall_mem_singleton.2 ⟨le_refl low, Nat.lt_succ_self low⟩⟩

theorem append (h : NewIds low mid ids) (h' : NewIds mid high ids') :
    NewIds low high (ids ++ ids') := by
  refine ⟨h.le.trans h'.le, List.nodup_append.2 ⟨h.nodup, h'.nodup, ?_⟩,
    List.forall_mem_append.2 ⟨fun id hm => ?_, fun id hm => ?_⟩⟩
  · rintro id hm _ hm' rfl
    exact Nat.not_lt.2 (h'.bounds id hm').1 (h.bounds id hm).2
  · exact ⟨(h.bounds id hm).1, Nat.lt_of_lt_of_le (h.bounds id hm).2 h'.le⟩
  · exact ⟨h.le.trans (h'.bounds id hm).1, (h'.bounds id hm).2⟩

theorem mono (h : NewIds low mid ids) (hle : mid ≤ high) : NewIds low high ids := by
  have := h.append (.nil hle)
  rwa [List.append_nil] at this

theorem add {s : Store} (h : NewIds low s.size ids) (i : Instance) :
    NewIds low (s.add i).2.size (ids ++ [⟨s.size⟩]) := by
  rw [size_add]
  exact h.append (.single s.size)

end NewIds

/-- Only nodes without a clock are added, and they read nothing but each other and what is
allowed. -/
structure AddsUntimed (allowed : NodeId → Prop) (s s' : Store) : Prop where
  grows : s.Grows s'
  clock : ∀ n, ¬ s.Holds n → (s'.design n).clock = none
  reads : ∀ n, ¬ s.Holds n → ∀ m, s'.Reads n m → s'.Holds m ∧ (allowed m ∨ ¬ s.Holds m)

namespace AddsUntimed

variable {allowed : NodeId → Prop} {s t : Store}

theorem refl (allowed : NodeId → Prop) (s : Store) : AddsUntimed allowed s s := by
  refine ⟨.refl s, fun n hn => ?_, fun n hn m hm => ?_⟩
  · rw [design, get_of_not_holds hn]
    rfl
  · rw [Reads, get_of_not_holds hn] at hm
    cases hm

theorem add (h : AddsUntimed allowed s t) {i : Instance} (hclock : i.design.clock = none)
    (hreads : ∀ m ∈ i.producers, t.Holds m ∧ (allowed m ∨ ¬ s.Holds m)) :
    AddsUntimed allowed s (t.add i).2 := by
  have hheld := fun m (hm : t.Holds m) => (Grows.add t i).holds hm
  refine ⟨h.grows.trans (.add t i), fun n hn => ?_, fun n hn m hm => ?_⟩
  · rcases t.get_add_cases i n with ⟨-, hget⟩ | ⟨-, hget⟩ | hget <;> rw [design, hget]
    · exact h.clock n hn
    · exact hclock
    · rfl
  · rcases t.get_add_cases i n with ⟨-, hget⟩ | ⟨-, hget⟩ | hget <;> rw [Reads, hget] at hm
    · exact (h.reads n hn m hm).imp_left (hheld m)
    · exact (hreads m hm).imp_left (hheld m)
    · cases hm

/-- An instance without a clock is a new node. -/
theorem instantiateWith {w w' : Workspace} (h : AddsUntimed allowed s w.store) {t t' : Template}
    {props : Props} {id : NodeId} (hprops : t.withProps props = .ok t')
    (hreturns : (t.instantiateWith props).Returns w id w') (hclock : t.design.clock = none)
    (hreads : ∀ m ∈ t'.producers, w.store.Holds m ∧ (allowed m ∨ ¬ s.Holds m)) :
    AddsUntimed allowed s w'.store ∧ (w'.store.Holds id ∧ ¬ s.Holds id) ∧
      w'.store.get id = ⟨t', none⟩ := by
  obtain ⟨rfl, hstore⟩ := Node.eq_add_of_returns hprops hreturns
  rw [← Node.design_withProps hprops] at hclock
  rw [hstore]
  exact ⟨h.add (i := ⟨t', none⟩) hclock hreads,
    ⟨holds_add_self _ _, Nat.not_lt.2 h.grows.size⟩, get_add_self _ _⟩

end AddsUntimed

end Store

theorem Instance.mem_producers_wired {n : Instance} {name : String} {port : Port NodeId}
    {m : NodeId} (h : m ∈ (n.wired name port).producers) :
    m ∈ n.producers ∨ ∃ output, port.edge? = some (m, output) := by
  obtain ⟨other, output, port', hm, he⟩ := (Node.mem_producers _ _).1 h
  rw [wired, ← Table.get?_eq_some_iff, Table.get?_insert] at hm
  split_ifs at hm with hname
  · cases hm
    exact .inr ⟨output, he⟩
  · exact .inl ((Node.mem_producers _ _).2
      ⟨other, output, port', (Table.get?_eq_some_iff _ _ _).1 hm, he⟩)

theorem exists_rel_of_isChain {α : Type} {r : α → α → Prop} : ∀ {l : List α} {a : α},
    (a :: l).IsChain r → ∀ b ∈ l, ∃ c ∈ a :: l, r c b
  | [], _, _, b, hb => by cases hb
  | c :: l, a, h, b, hb => by
    obtain ⟨hac, hc⟩ := List.isChain_cons_cons.1 h
    rcases List.mem_cons.1 hb with rfl | hb
    · exact ⟨a, List.mem_cons_self, hac⟩
    · obtain ⟨e, he, heb⟩ := exists_rel_of_isChain hc b hb
      exact ⟨e, List.mem_cons_of_mem _ he, heb⟩

namespace Stack.Chains

variable {stack : Stack} {props : Props} {before after : Store} {head tail : NodeId}
  (h : stack.Chains props before head tail after)
include h

/-- What is at an id after a stack was assembled. -/
theorem get_cases (n : NodeId) :
    (n ∈ stack.filters ∧ ∃ previous ∈ head :: stack.filters, before.Follows after previous n) ∨
      n = head ∨ n = tail ∨ (before.Holds n ∧ after.get n = before.get n) ∨
      after.get n = default := by
  by_cases hf : n ∈ stack.filters
  · exact .inl ⟨hf, exists_rel_of_isChain h.chain n hf⟩
  by_cases hheld : before.Holds n
  · exact .inr (.inr (.inr (.inl ⟨hheld, h.others n hheld hf⟩)))
  by_cases hlt : after.Holds n
  · rw [Store.Holds, h.size] at hlt
    rw [Store.Holds] at hheld
    rcases (by omega : n.index = before.size ∨ n.index = before.size + 1) with he | he
    · exact .inr (.inl (h.head_fresh ▸ congrArg NodeId.mk he))
    · exact .inr (.inr (.inl (h.tail_fresh ▸ congrArg NodeId.mk he)))
  · exact .inr (.inr (.inr (.inr (Store.get_of_not_holds hlt))))

theorem reads_head {m : NodeId} (hm : after.Reads head m) : ∃ name p output,
    (name, p) ∈ stack.inputs.entries ∧
      (p.given (props.source? name)).edge? = some (m, output) := by
  obtain ⟨name, output, p, hm, he⟩ := (Node.mem_producers _ _).1 hm
  have hname : name ∈ stack.inputs.keys := h.head_keys ▸ Table.mem_keys_of_mem hm
  obtain ⟨⟨_, declared⟩, hdeclared, rfl⟩ := List.mem_map.1 hname
  have hport := h.head_port _ declared ((Table.get?_eq_some_iff _ _ _).2 hdeclared)
  rw [(Table.get?_eq_some_iff _ _ _).2 hm] at hport
  cases hport
  exact ⟨_, declared, output, hdeclared, he⟩

theorem reads_tail {m : NodeId} (hm : after.Reads tail m) : m ∈ head :: stack.filters := by
  obtain ⟨last, _, _, hlast, -, -, hentries, -⟩ := h.tail_reads
  obtain ⟨_, _, _, hm, he⟩ := (Node.mem_producers _ _).1 hm
  rw [hentries, List.mem_singleton] at hm
  cases hm
  cases he
  exact List.mem_of_getLast? hlast

theorem primaryOutput_tail : (after.design tail).primaryOutput = some "value" := by
  obtain ⟨_, _, _, -, -, -, -, hdesign⟩ := h.tail_reads
  rw [hdesign]
  rfl

/-- A stack of new filters adds two more nodes. -/
theorem addsUntimed {allowed : NodeId → Prop} {s : Store}
    (hbefore : Store.AddsUntimed allowed s before)
    (hfilters : ∀ f ∈ stack.filters, before.Holds f ∧ ¬ s.Holds f)
    (hports : ∀ name p, (name, p) ∈ stack.inputs.entries → ∀ m o,
      (p.given (props.source? name)).edge? = some (m, o) →
        before.Holds m ∧ (allowed m ∨ ¬ s.Holds m)) :
    Store.AddsUntimed allowed s after ∧ after.Holds tail ∧ ¬ s.Holds tail := by
  have hsize := hbefore.grows.size
  have hheld : ∀ m, before.Holds m → after.Holds m := fun m hm => by
    rw [Store.Holds, h.size]
    exact Nat.lt_add_right 2 hm
  have hhead : after.Holds head ∧ ¬ s.Holds head := by
    rw [h.head_fresh, Store.Holds, Store.Holds, h.size]
    exact ⟨Nat.lt_succ_of_lt (Nat.lt_succ_self _), Nat.not_lt.2 hsize⟩
  have htail : after.Holds tail ∧ ¬ s.Holds tail := by
    rw [h.tail_fresh, Store.Holds, Store.Holds, h.size]
    exact ⟨Nat.lt_succ_self _, Nat.not_lt.2 (Nat.le_succ_of_le hsize)⟩
  have hchained : ∀ n ∈ head :: stack.filters, after.Holds n ∧ ¬ s.Holds n :=
    List.forall_mem_cons.2 ⟨hhead, fun f hf => (hfilters f hf).imp_left (hheld f)⟩
  have hnew : ∀ n, ¬ s.Holds n → (after.design n).clock = none ∧
      ∀ m, after.Reads n m → after.Holds m ∧ (allowed m ∨ ¬ s.Holds m) := by
    intro n hn
    rcases h.get_cases n with ⟨hf, previous, hprevious, _, _, _, -, -, -, -, hget⟩ | rfl | rfl |
      ⟨-, hget⟩ | hget
    · simp only [Store.design, Store.Reads, hget]
      refine ⟨hbefore.clock n hn, fun m hm => ?_⟩
      rcases Instance.mem_producers_wired hm with hold | ⟨_, he⟩
      · exact (hbefore.reads n hn m hold).imp_left (hheld m)
      · cases he
        exact (hchained previous hprevious).imp_right .inr
    · rw [h.head_design]
      refine ⟨rfl, fun m hm => ?_⟩
      obtain ⟨name, p, output, hdeclared, he⟩ := h.reads_head hm
      exact (hports name p hdeclared m output he).imp_left (hheld m)
    · obtain ⟨_, _, _, -, -, -, -, hdesign⟩ := h.tail_reads
      rw [hdesign]
      exact ⟨rfl, fun m hm => (hchained m (h.reads_tail hm)).imp_right .inr⟩
    · simp only [Store.design, Store.Reads, hget]
      exact ⟨hbefore.clock n hn, fun m hm => (hbefore.reads n hn m hm).imp_left (hheld m)⟩
    · simp only [Store.design, Store.Reads, hget]
      exact ⟨rfl, fun m hm => by cases hm⟩
  refine ⟨⟨⟨?_, fun n hn => ?_⟩, fun n hn => (hnew n hn).1, fun n hn => (hnew n hn).2⟩, htail⟩
  · rw [h.size]
    exact Nat.le_add_right_of_le hsize
  · have hf : n ∉ stack.filters := fun hm => (hfilters n hm).2 hn
    rw [h.others n (Nat.lt_of_lt_of_le hn hsize) hf, hbefore.grows.get n hn]

omit h in
theorem get_head (h : stack.Chains [] before head tail after) :
    after.get head = ⟨stack.head, none⟩ := by
  have hinputs : (after.get head).inputs = stack.inputs := by
    refine Table.ext_get? h.head_keys fun name hm => ?_
    obtain ⟨⟨_, p⟩, hdeclared, rfl⟩ := List.mem_map.1 hm
    have hp := (Table.get?_eq_some_iff _ _ _).2 hdeclared
    rw [h.head_port _ p hp, hp]
    rfl
  have hdesign : (after.get head).design = stack.head.design := h.head_design
  have hdelegate := h.head_delegate
  generalize after.get head = n at hinputs hdesign hdelegate
  obtain ⟨⟨design, inputs⟩, delegate⟩ := n
  cases hinputs
  cases hdesign
  cases hdelegate
  rfl

end Stack.Chains

end ShaderGraph
