import ShaderGraph.Proofs.FiniteSettings
import ShaderGraph.Proofs.NewNodes

/-!
# The graph of the material

What the demo material leaves in a store. Each filter of the animation reads a clock of its own and
what comes before it (`Material.Strung`), from the head of the stack to its tail
(`Material.animation_returns`). The colour brings no clock and reads nothing that was there but its
base (`Material.color_returns`). Whatever the settings are, a material that is built is laid out in
this way (`Material.build_laid`).
-/

namespace ShaderGraph

/-! ## The animation -/

namespace FilterSettings

open Library

def design : FilterSettings → Design
  | .squeeze _ => timedDesign "Squeeze with Time" squeezeBody
  | .scale axis _ => timedDesign "Scale with Time"
    s!"out_value.{axis.swizzle} *= (1.0 + sin(in_time * in_frequency) * 0.5);"
  | .move axis _ _ => timedDesign "Move with Time"
    s!"out_value.{axis.swizzle} += sin(in_time * in_frequency) * in_amplitude;"

/-- The node of a filter that reads a value, if it is wired to one, and a time. -/
def node {ρ : Type} (f : FilterSettings) (value : Option (Source ρ)) (time : Source ρ) : Node ρ :=
  let number (x : Single) : Port ρ := (Port.ofKind .float).wired (.literal (.float x))
  let reading (frequency : Single) : Node ρ := Node.mk f.design .empty
    |>.input "a" ⟨.vector3, value, false, false⟩
    |>.input "frequency" (number frequency)
    |>.input "time" ((Port.ofKind .float).wired time)
  match f with
  | .squeeze frequency => reading frequency
  | .scale _ frequency => reading frequency
  | .move _ frequency amplitude => (reading frequency).input "amplitude" (number amplitude)

variable {ρ σ : Type} (f : FilterSettings) (value : Option (Source ρ)) (time : Source ρ)

@[simp] theorem design_node : (f.node value time).design = f.design := by cases f <;> rfl

theorem primaryInput_node : (f.node value time).primaryInput = some "a" := by cases f <;> rfl

theorem get?_node :
    (f.node value time).inputs.get? "a" = some ⟨.vector3, value, false, false⟩ := by
  cases f <;> rfl

theorem map_node (g : ρ → σ) :
    (f.node value time).map g = f.node (value.map (Source.map g)) (time.map g) := by
  cases f <;> rfl

theorem producers_node (previous clock : ρ) (o o' : String) :
    (f.node (some (.edge previous o)) (.edge clock o')).producers = [previous, clock] := by
  cases f <;> rfl

theorem outputs_design :
    f.design.outputs = Table.empty.insert "value" ⟨.vector3, some "in_a"⟩ := by
  cases f <;> rfl

theorem isMaster_design : f.design.isMaster = false := by cases f <;> rfl

theorem clock_design : f.design.clock = none := by cases f <;> rfl

end FilterSettings

theorem Instance.wired_node (f : FilterSettings) (time source : Source NodeId) :
    Instance.wired ⟨f.node none time, none⟩ "a" ⟨.vector3, some source, false, false⟩ =
      ⟨f.node (some source) time, none⟩ := by
  cases f <;> rfl

namespace Material

open Library

/-- What the clocks of the animation are apart from their numbers. -/
def clockDesign : Option String → Design
  | none => timeTemplate.design
  | some source => (sharedTimeTemplate source).design

/-- A clock and the filter that reads it. -/
structure Clocked (s : Store) (clock : Option String) (f : FilterSettings)
    (value : Option (Source NodeId)) (p : NodeId × NodeId) : Prop where
  clock : s.get p.1 = ⟨⟨clockDesign clock, .empty⟩, none⟩
  filter : s.get p.2 = ⟨f.node value (.edge p.1 "value"), none⟩

/-- Clocks and filters, each of which reads what comes before it. -/
inductive Strung (s : Store) (clock : Option String) :
    NodeId → List FilterSettings → List (NodeId × NodeId) → Prop
  | nil {previous : NodeId} : Strung s clock previous [] []
  | cons {previous : NodeId} {f : FilterSettings} {fs : List FilterSettings}
    {p : NodeId × NodeId} {ps : List (NodeId × NodeId)}
    (hfirst : Clocked s clock f (some (.edge previous "value")) p)
    (hrest : Strung s clock p.2 fs ps) : Strung s clock previous (f :: fs) (p :: ps)

theorem primaryEdge_add {s : Store} {i : Instance} {output : String}
    (h : i.design.primaryOutput = some output) :
    (s.add i).2.primaryEdge ⟨s.size⟩ = .edge ⟨s.size⟩ output := by
  rw [Store.primaryEdge, Store.design, Store.get_add_self, h]
  rfl

/-- Making a filter adds a time of its own and the filter, which reads another time if there is
one. -/
theorem make_returns (f : FilterSettings) {w w' : Workspace} {shared : Option (Source NodeId)}
    {id : NodeId} (h : ((typeOf f).1.make ((typeOf f).2 ++
      (shared.map fun e => ("time", e)).toList)).Returns w id w') :
    let s := (w.store.add ⟨timeTemplate, none⟩).2
    id = ⟨s.size⟩ ∧ w'.store =
      (s.add ⟨f.node none (shared.getD (.edge ⟨w.store.size⟩ "value")), none⟩).2 := by
  intro s
  have hown : s.primaryEdge ⟨w.store.size⟩ = .edge ⟨w.store.size⟩ "value" := primaryEdge_add rfl
  rw [← hown]
  rcases f with frequency | ⟨axis, frequency⟩ | ⟨axis, frequency, amplitude⟩
  · exact Node.eq_add_of_returns (w := ⟨s, w.notices⟩)
      (t := timed "Squeeze with Time" squeezeBody (s.primaryEdge ⟨w.store.size⟩))
      (by rcases shared with _ | e <;> rfl) h
  · exact Node.eq_add_of_returns (w := ⟨s, w.notices⟩)
      (t := timed "Scale with Time" _ (s.primaryEdge ⟨w.store.size⟩))
      (by rcases shared with _ | e <;> rfl) h
  · exact Node.eq_add_of_returns (w := ⟨s, w.notices⟩)
      (t := swung "Move with Time" _ (s.primaryEdge ⟨w.store.size⟩))
      (by rcases shared with _ | e <;> rfl) h

theorem clocked_add {s : Store} {clock : Option String} {c : NodeId} (f : FilterSettings)
    (hheld : s.Holds c) (hc : s.get c = ⟨⟨clockDesign clock, .empty⟩, none⟩) :
    Clocked (s.add ⟨f.node none (.edge c "value"), none⟩).2 clock f none (c, ⟨s.size⟩) :=
  ⟨(Store.get_add hheld _).trans hc, s.get_add_self _⟩

/-- A filter is added behind its clock. -/
theorem filter_returns (f : FilterSettings) (clock : Option String) {w w' : Workspace}
    {id : NodeId} (h : (filter f clock).Returns w id w') : ∃ c, w.store.Grows w'.store ∧
      Store.NewIds w.store.size w'.store.size [c, id] ∧
      Clocked w'.store clock f none (c, id) := by
  have hnil := Store.NewIds.nil (le_refl w.store.size)
  refine ⟨⟨w.store.size⟩, ?_⟩
  rcases clock with _ | name
  · have hmake : ((typeOf f).1.make ((typeOf f).2 ++
        ((none : Option (Source NodeId)).map fun e => ("time", e)).toList)).Returns w id w' := by
      rw [Option.map_none, Option.toList_none, List.append_nil]
      rcases f <;> exact h
    obtain ⟨rfl, hstore⟩ := make_returns f hmake
    rw [hstore]
    refine ⟨(Store.Grows.add _ _).trans (.add _ _), (hnil.add _).add _, ?_⟩
    exact clocked_add f (Store.holds_add_self _ _) (Store.get_add_self _ _)
  · let s := (w.store.add ⟨sharedTimeTemplate name, none⟩).2
    have hmake : ((typeOf f).1.make ((typeOf f).2 ++
        ((some (s.primaryEdge ⟨w.store.size⟩)).map fun e => ("time", e)).toList)).Returns
          ⟨s, w.notices⟩ id w' := by
      rcases f <;> exact h
    have hown : s.primaryEdge ⟨w.store.size⟩ = .edge ⟨w.store.size⟩ "value" := primaryEdge_add rfl
    obtain ⟨rfl, hstore⟩ := make_returns f hmake
    rw [hstore, hown]
    have hheld : s.Holds ⟨w.store.size⟩ := Store.holds_add_self _ _
    have hadd := Store.Grows.add s ⟨timeTemplate, none⟩
    refine ⟨((Store.Grows.add _ _).trans hadd).trans (.add _ _),
      ((hnil.add _).mono hadd.size).add _, clocked_add f (hadd.holds hheld) ?_⟩
    exact (Store.get_add hheld _).trans (Store.get_add_self _ _)

/-- The ids of clocks and filters in the order in which they were given out. -/
def pairIds (ps : List (NodeId × NodeId)) : List NodeId := ps.flatMap fun p => [p.1, p.2]

@[simp] theorem pairIds_cons (p : NodeId × NodeId) (ps : List (NodeId × NodeId)) :
    pairIds (p :: ps) = p.1 :: p.2 :: pairIds ps := rfl

theorem pairIds_perm : ∀ ps : List (NodeId × NodeId),
    (pairIds ps).Perm (ps.map Prod.fst ++ ps.map Prod.snd)
  | [] => .nil
  | p :: ps => (((pairIds_perm ps).cons p.2).trans List.perm_middle.symm).cons p.1

theorem fst_mem_pairIds {ps : List (NodeId × NodeId)} {p : NodeId × NodeId} (hp : p ∈ ps) :
    p.1 ∈ pairIds ps := List.mem_flatMap.2 ⟨p, hp, List.mem_cons_self⟩

theorem snd_mem_pairIds {ps : List (NodeId × NodeId)} {p : NodeId × NodeId} (hp : p ∈ ps) :
    p.2 ∈ pairIds ps := List.mem_flatMap.2 ⟨p, hp, List.mem_cons_of_mem _ List.mem_cons_self⟩

theorem Clocked.congr {s s' : Store} {clock : Option String} {f : FilterSettings}
    {value : Option (Source NodeId)} {p : NodeId × NodeId} (h : Clocked s clock f value p)
    (hclock : s'.get p.1 = s.get p.1) (hfilter : s'.get p.2 = s.get p.2) :
    Clocked s' clock f value p :=
  ⟨hclock.trans h.clock, hfilter.trans h.filter⟩

theorem clocked_congr {s s' : Store} {clock : Option String} {value : Option (Source NodeId)}
    {fs : List FilterSettings} {ps : List (NodeId × NodeId)}
    (h : List.Forall₂ (Clocked s clock · value ·) fs ps)
    (hget : ∀ n ∈ pairIds ps, s'.get n = s.get n) :
    List.Forall₂ (Clocked s' clock · value ·) fs ps := by
  induction h with
  | nil => exact .nil
  | cons hfirst _ ih =>
    rw [pairIds_cons, List.forall_mem_cons, List.forall_mem_cons] at hget
    exact .cons (hfirst.congr hget.1 hget.2.1) (ih hget.2.2)

theorem filters_returns (clock : Option String) : ∀ (fs : List FilterSettings) {w w' : Workspace}
    {ids : List NodeId}, (fs.mapM fun f => filter f clock).Returns w ids w' →
      ∃ ps, ids = ps.map Prod.snd ∧ w.store.Grows w'.store ∧
        Store.NewIds w.store.size w'.store.size (pairIds ps) ∧
        List.Forall₂ (Clocked w'.store clock · none ·) fs ps
  | [], w, w', ids, h => by
    obtain ⟨rfl, rfl⟩ := Build.returns_pure_iff.1 h
    exact ⟨[], rfl, .refl _, .nil (le_refl _), .nil⟩
  | f :: fs, w, w', ids, h => by
    rw [List.mapM_cons] at h
    simp only [Build.returns_bind_iff, Build.returns_pure_iff] at h
    obtain ⟨id, v, hfirst, ids, u, hrest, rfl, rfl⟩ := h
    obtain ⟨c, hgrows, hnew, hclocked⟩ := filter_returns f clock hfirst
    obtain ⟨ps, rfl, hgrows', hnew', hall⟩ := filters_returns clock fs hrest
    have hheld := fun n hn => (hnew.bounds n hn).2
    refine ⟨(c, id) :: ps, rfl, hgrows.trans hgrows', hnew.append hnew', .cons ?_ hall⟩
    exact hclocked.congr (hgrows'.get c (hheld c (by simp))) (hgrows'.get id (hheld id (by simp)))

theorem exists_clocked {s : Store} {clock : Option String} {value : Option (Source NodeId)}
    {fs : List FilterSettings} {ps : List (NodeId × NodeId)}
    (h : List.Forall₂ (Clocked s clock · value ·) fs ps) :
    ∀ p ∈ ps, ∃ f, Clocked s clock f value p := by
  induction h with
  | nil => exact List.forall_mem_nil _
  | cons hfirst _ ih => exact List.forall_mem_cons.2 ⟨⟨_, hfirst⟩, ih⟩

theorem Strung.exists_clocked {s : Store} {clock : Option String} {first : NodeId}
    {fs : List FilterSettings} {ps : List (NodeId × NodeId)} (h : Strung s clock first fs ps) :
    ∀ p ∈ ps, ∃ f previous, Clocked s clock f (some (.edge previous "value")) p := by
  induction h with
  | nil => exact List.forall_mem_nil _
  | cons hfirst _ ih => exact List.forall_mem_cons.2 ⟨⟨_, _, hfirst⟩, ih⟩

/-- Filters that are a chain are strung. -/
theorem strung_of_chain {before after : Store} {clock : Option String} {first : NodeId}
    {fs : List FilterSettings} {ps : List (NodeId × NodeId)}
    (h : List.Forall₂ (Clocked before clock · none ·) fs ps)
    (hclocks : ∀ p ∈ ps, after.get p.1 = before.get p.1)
    (hfirst : (after.design first).primaryOutput = some "value")
    (hchain : (first :: ps.map Prod.snd).IsChain (before.Follows after)) :
    Strung after clock first fs ps := by
  induction h generalizing first with
  | nil => exact .nil
  | @cons f p fs ps hclocked _ ih =>
    obtain ⟨⟨primary, port, output, hprimary, hport, houtput, -, hget⟩, hchain⟩ :=
      List.isChain_cons_cons.1 hchain
    obtain ⟨hclock, hclocks⟩ := List.forall_mem_cons.1 hclocks
    rw [hclocked.filter] at hprimary hport hget
    cases hfirst.symm.trans houtput
    cases (f.primaryInput_node none _).symm.trans hprimary
    cases (f.get?_node none _).symm.trans hport
    have hfilter := hget.trans (Instance.wired_node f _ _)
    refine .cons ⟨hclock.trans hclocked.clock, hfilter⟩ (ih hclocks ?_ hchain)
    rw [Store.design, hfilter]
    cases f <;> rfl

/-- The head of the animation. -/
def headNode {ρ : Type} (position : ρ) : Node ρ :=
  Node.named "Animation Stack"
    |>.input "origin" ((Port.ofKind .vector3).wired (.edge position "value"))
    |>.output "value" .vector3 "in_origin"

/-- The tail of the animation. -/
def tailNode {ρ : Type} (last : ρ) : Node ρ :=
  Node.named "Animation Stack Output"
    |>.input "value" ((Port.ofKind .vector3).wired (.edge last "value"))
    |>.output "value" .vector3 "in_value"

/-- The animation, from the position that it starts with to the tail of the stack. -/
structure Animated (s : Store) (settings : AnimationSettings) (origin head tail : NodeId)
    (ps : List (NodeId × NodeId)) : Prop where
  position : s.get origin = ⟨geometryPositionTemplate, none⟩
  first : s.get head = ⟨headNode origin, none⟩
  strung : Strung s settings.sharedClock head settings.filters ps
  last : (s.get tail).toNode = tailNode ((ps.map Prod.snd).getLastD head)

theorem Strung.congr {s s' : Store} {clock : Option String} {first : NodeId}
    {fs : List FilterSettings} {ps : List (NodeId × NodeId)} (h : Strung s clock first fs ps)
    (hget : ∀ n ∈ pairIds ps, s'.get n = s.get n) : Strung s' clock first fs ps := by
  induction h with
  | nil => exact .nil
  | cons hfirst _ ih =>
    rw [pairIds_cons, List.forall_mem_cons, List.forall_mem_cons] at hget
    exact .cons (hfirst.congr hget.1 hget.2.1) (ih hget.2.2)

theorem Animated.congr {s s' : Store} {settings : AnimationSettings} {origin head tail : NodeId}
    {ps : List (NodeId × NodeId)} (h : Animated s settings origin head tail ps)
    (hget : ∀ n ∈ pairIds ps ++ [origin, head, tail], s'.get n = s.get n) :
    Animated s' settings origin head tail ps := by
  simp only [List.forall_mem_append, List.forall_mem_cons] at hget
  obtain ⟨hpairs, horigin, hhead, htail, -⟩ := hget
  exact ⟨horigin.trans h.position, hhead.trans h.first, h.strung.congr hpairs, htail ▸ h.last⟩

theorem tail_of_chains {origin : Source NodeId} {ids : List NodeId} {props : Props}
    {before after : Store} {head tail : NodeId}
    (h : (animation origin ids).Chains props before head tail after)
    (hids : ∀ n ∈ ids, (after.design n).outputs =
      Table.empty.insert "value" ⟨.vector3, some "in_a"⟩) :
    (after.get tail).toNode = tailNode (ids.getLastD head) := by
  obtain ⟨last, output, spec, hlast, houtput, hspec, hentries, hdesign⟩ := h.tail_reads
  have houtputs : ∃ e, (after.design last).outputs =
      Table.empty.insert "value" ⟨.vector3, some e⟩ := by
    rcases List.mem_cons.1 (List.mem_of_getLast? hlast) with rfl | hm
    · exact ⟨"in_origin", by rw [h.head_design]; rfl⟩
    · exact ⟨"in_a", hids last hm⟩
  obtain ⟨e, he⟩ := houtputs
  rw [Design.primaryOutput, he] at houtput
  rw [he] at hspec
  cases houtput
  cases hspec
  have hlast' : (head :: ids).getLast? = some last := hlast
  rw [List.getLast?_cons, Option.some.injEq] at hlast'
  rw [List.getLastD_eq_getLast?, hlast']
  change (after.get tail).design = _ at hdesign
  generalize (after.get tail).toNode = n at hentries hdesign
  obtain ⟨design, inputs, hnodup⟩ := n
  cases hentries
  cases hdesign
  rfl

/-- Building the animation adds clocks and filters, the position and the two ends of the stack. -/
theorem animation_returns {settings : AnimationSettings} {w w' : Workspace} {tail : NodeId}
    (h : (animationType settings).instantiate.Returns w tail w') :
    ∃ position head ps, w.store.Grows w'.store ∧
      Store.NewIds w.store.size w'.store.size (pairIds ps ++ [position, head, tail]) ∧
      Animated w'.store settings position head tail ps := by
  obtain ⟨stack, v, hstack, hassemble⟩ := Build.returns_bind_iff.1 h
  obtain ⟨ids, u, hids, hrest⟩ := Build.returns_bind_iff.1 hstack
  obtain ⟨ps, rfl, hgrows, hnew, hall⟩ := filters_returns settings.sharedClock _ hids
  let t := (u.store.add ⟨geometryPositionTemplate, none⟩).2
  have hpure : (pure ((ps.map Prod.snd).foldl Stack.filter
      (animation (t.primaryEdge ⟨u.store.size⟩) [])) : Build Stack).Returns
        ⟨t, u.notices⟩ stack v := hrest
  obtain ⟨rfl, rfl⟩ := Build.returns_pure_iff.1 hpure
  have hedge : t.primaryEdge ⟨u.store.size⟩ = .edge ⟨u.store.size⟩ "value" := primaryEdge_add rfl
  rw [hedge, foldl_filter] at hassemble
  have hadd := Store.Grows.add u.store ⟨geometryPositionTemplate, none⟩
  have hheld : ∀ n ∈ pairIds ps, u.store.Holds n := fun n hn => (hnew.bounds n hn).2
  have hall' := clocked_congr hall fun n hn => hadd.get n (hheld n hn)
  obtain ⟨hclocks, hnodup, hapart⟩ :=
    List.nodup_append.1 ((pairIds_perm ps).nodup_iff.1 hnew.nodup)
  obtain ⟨head, hchains⟩ := Stack.chains_of_assemble hnodup (List.forall_mem_map.2 fun p hp => by
    obtain ⟨f, hclocked⟩ := exists_clocked hall' p hp
    rw [hclocked.filter]
    exact ⟨hadd.holds (hheld _ (snd_mem_pairIds hp)), rfl⟩) hassemble
  have hothers : ∀ n, t.Holds n → n ∉ ps.map Prod.snd → w'.store.get n = t.get n := hchains.others
  have hstrung := strung_of_chain hall'
    (fun p hp => hothers _ (hadd.holds (hheld _ (fst_mem_pairIds hp))) fun hm =>
      hapart _ (List.mem_map_of_mem hp) _ hm rfl)
    (by rw [hchains.head_design]; rfl) hchains.chain
  have hfilters : ∀ n ∈ ps.map Prod.snd, w.store.size ≤ n.index ∧ u.store.Holds n :=
    List.forall_mem_map.2 fun p hp => hnew.bounds _ (snd_mem_pairIds hp)
  have hends : Store.NewIds t.size w'.store.size [head, tail] := by
    rw [hchains.head_fresh, hchains.tail_fresh, hchains.size]
    exact (Store.NewIds.single _).append (.single _)
  have hids := (hnew.add ⟨geometryPositionTemplate, none⟩).append hends
  rw [List.append_assoc] at hids
  refine ⟨⟨u.store.size⟩, head, ps, ⟨hids.le, fun n hn => ?_⟩, hids, ?_, hchains.get_head, hstrung,
    tail_of_chains hchains fun n hn => ?_⟩
  · have hnot : n ∉ ps.map Prod.snd := fun hm => Nat.not_lt.2 (hfilters n hm).1 hn
    rw [hothers n (hadd.holds (hgrows.holds hn)) hnot, hadd.get n (hgrows.holds hn),
      hgrows.get n hn]
  · have hnot : ⟨u.store.size⟩ ∉ ps.map Prod.snd := fun hm => Nat.lt_irrefl _ (hfilters _ hm).2
    rw [hothers _ (Store.holds_add_self _ _) hnot]
    exact Store.get_add_self _ _
  · obtain ⟨p, hp, rfl⟩ := List.mem_map.1 hn
    obtain ⟨f, _, hclocked⟩ := hstrung.exists_clocked p hp
    rw [Store.design, hclocked.filter]
    exact (congrArg Design.outputs (f.design_node _ _)).trans f.outputs_design

/-! ## The colour -/

theorem rim_untimed {allowed : NodeId → Prop} {s : Store} {power : Single} {w w' : Workspace}
    {id : NodeId} (hs : Store.AddsUntimed allowed s w.store)
    (h : (fresnelType.make [("power", number power)]).Returns w id w') :
    Store.AddsUntimed allowed s w'.store ∧ w'.store.Holds id ∧ ¬ s.Holds id := by
  let s₁ := (w.store.add ⟨worldPositionTemplate, none⟩).2
  let s₂ := (s₁.add ⟨worldNormalTemplate, none⟩).2
  have hadd : Store.AddsUntimed allowed s s₁ := hs.add rfl (List.forall_mem_nil _)
  have hadd' : Store.AddsUntimed allowed s s₂ := hadd.add rfl (List.forall_mem_nil _)
  obtain ⟨t, hprops, hinputs⟩ := withProps_rim (s₂.primaryEdge ⟨w.store.size⟩)
    (s₂.primaryEdge ⟨s₁.size⟩) (number power)
  have hreads : t.producers = [⟨w.store.size⟩, ⟨s₁.size⟩] := by
    rw [Node.producers, Table.values, hinputs]
    rfl
  have hposition : s₂.Holds ⟨w.store.size⟩ :=
    (Store.Grows.add s₁ _).holds (Store.holds_add_self _ _)
  obtain ⟨hadds, hnew, -⟩ := hadd'.instantiateWith (w := ⟨s₂, w.notices⟩) hprops h rfl (by
    rw [hreads]
    simp only [List.forall_mem_cons]
    exact ⟨⟨hposition, .inr (Nat.not_lt.2 hs.grows.size)⟩,
      ⟨Store.holds_add_self _ _, .inr (Nat.not_lt.2 hadd.grows.size)⟩, List.forall_mem_nil _⟩)
  exact ⟨hadds, hnew⟩

/-- Building the colour adds nodes without clocks that read each other and the base. -/
theorem color_returns {settings : ColorSettings} {base : NodeId} {output : String}
    {w w' : Workspace} {id : NodeId} (hbase : w.store.Holds base)
    (h : ((colorType settings).make [("color", .edge base output)]).Returns w id w') :
    w.store.AddsUntimed (· = base) w'.store ∧ (w'.store.Holds id ∧ ¬ w.store.Holds id) ∧
      (w'.store.design id).primaryOutput = some "value" := by
  obtain ⟨stack, v, hstack, hassemble⟩ := Build.returns_bind_iff.1 h
  unfold colorStack at hstack
  simp only [Build.returns_bind_iff, Build.returns_primaryEdge_iff] at hstack
  obtain ⟨rim, _, hrim, _, v₁, ⟨rfl, rfl⟩, highlight, _, hhighlight, _, v₂, ⟨rfl, rfl⟩, blend, v₃,
    hblend, hpure⟩ := hstack
  obtain ⟨hadds, hnew⟩ := rim_untimed (.refl (· = base) w.store) hrim
  obtain ⟨t, hprops, hinputs⟩ := withProps_product
    (.literal (.vector3 settings.highlight.red settings.highlight.green settings.highlight.blue))
    (v₁.store.primaryEdge rim)
  have hreads : t.producers = [rim] := by
    rw [Node.producers, Table.values, hinputs]
    rfl
  obtain ⟨hadds, hnew, -⟩ := hadds.instantiateWith hprops hhighlight rfl
    (by rw [hreads]; exact List.forall_mem_singleton.2 (hnew.imp_right .inr))
  obtain ⟨t, hprops, hinputs⟩ :=
    withProps_blend (v₂.store.primaryEdge highlight) (number settings.mixAmount)
  have hreads : t.producers = [highlight] := by
    rw [Node.producers, Table.values, hinputs]
    rfl
  obtain ⟨hadds, hnew, hget⟩ := hadds.instantiateWith hprops hblend rfl
    (by rw [hreads]; exact List.forall_mem_singleton.2 (hnew.imp_right .inr))
  obtain ⟨rfl, rfl⟩ := Build.returns_pure_iff.1 hpure
  obtain ⟨head, hchains⟩ := Stack.chains_of_assemble (s := tint [blend]) (List.nodup_singleton _)
    (List.forall_mem_singleton.2 ⟨hnew.1, by rw [hget]⟩) hassemble
  obtain ⟨hadds, hnew⟩ := hchains.addsUntimed hadds (List.forall_mem_singleton.2 hnew) (by
    intro name p hm m o he
    obtain ⟨rfl, rfl⟩ := Prod.mk.inj (List.mem_singleton.1 hm)
    cases he
    exact ⟨hadds.grows.holds hbase, .inl rfl⟩)
  exact ⟨hadds, hnew, hchains.primaryOutput_tail⟩

/-! ## The material -/

/-- The material: the master reads the tail of the animation, and for its colour something below
which no clock is. -/
structure Laid (s : Store) (settings : AnimationSettings)
    (origin head tail diffuse master : NodeId) (ps : List (NodeId × NodeId)) : Prop extends
    Animated s settings origin head tail ps where
  design : s.design master = customMaterialTemplate.design
  entries : (s.get master).inputs.entries =
    [("position", slotPort .vector3 (some (.edge tail "value"))),
      ("normal", slotPort .vector3 none),
      ("diffuse_color", slotPort .color (some (.edge diffuse "value"))),
      ("emissive_color", slotPort .color none), ("roughness", slotPort .float none),
      ("metalness", slotPort .float none)]
  nodup : (master :: diffuse :: (pairIds ps ++ [origin, head, tail])).Nodup
  untimed : ∀ n, s.Reaches diffuse n → (s.design n).clock = none

/-- Whatever the settings are, a material that is built is laid out like this. -/
theorem build_laid {settings : Settings} {w w' : Workspace} {master : NodeId}
    (h : (build settings).Returns w master w') :
    ∃ origin head tail diffuse ps,
      Laid w'.store settings.animation origin head tail diffuse master ps := by
  unfold build at h
  simp only [Build.returns_bind_iff, Build.returns_primaryEdge_iff] at h
  obtain ⟨base, v, hbase, tail, _, htail, _, u, ⟨rfl, rfl⟩, diffuse, _, hdiffuse, _, _, ⟨rfl, rfl⟩,
    _, t, ⟨rfl, rfl⟩, hmaster⟩ := h
  obtain ⟨rfl, hv⟩ := Node.eq_add_of_returns rfl hbase
  obtain ⟨origin, head, ps, hgrows, hnew, hanimated⟩ := animation_returns htail
  have hheld : v.store.Holds ⟨w.store.size⟩ := by
    rw [hv]
    exact Store.holds_add_self _ _
  obtain ⟨hadds, hdiffuse, houtput⟩ := color_returns (hgrows.holds hheld) hdiffuse
  obtain ⟨t', hprops, hdesign, hentries⟩ :=
    withProps_master (t.store.primaryEdge tail) (t.store.primaryEdge diffuse)
  obtain ⟨rfl, hw'⟩ := Node.eq_add_of_returns hprops hmaster
  have hlast := Store.Grows.add t.store ⟨t', none⟩
  have hids : ∀ n ∈ pairIds ps ++ [origin, head, tail], u.store.Holds n :=
    fun n hn => (hnew.bounds n hn).2
  have htailEdge : t.store.primaryEdge tail = .edge tail "value" := by
    have hdesign := congrArg Node.design hanimated.last
    rw [Store.primaryEdge, Store.design, hadds.grows.get tail (hids tail (by simp)), hdesign]
    rfl
  have hdiffuseEdge : t.store.primaryEdge diffuse = .edge diffuse "value" := by
    rw [Store.primaryEdge, houtput]
    rfl
  rw [htailEdge, hdiffuseEdge] at hentries
  rw [hw']
  refine ⟨origin, head, tail, diffuse, ps,
    hanimated.congr fun n hn => (hadds.grows.trans hlast).get n (hids n hn), ?_, ?_, ?_, ?_⟩
  · rw [Store.design, Store.get_add_self]
    exact hdesign
  · rw [Store.get_add_self]
    exact hentries
  · refine List.nodup_cons.2 ⟨fun hm => ?_, List.nodup_cons.2
      ⟨fun hm => hdiffuse.2 (hids diffuse hm), hnew.nodup⟩⟩
    have hheld : t.store.Holds ⟨t.store.size⟩ := by
      rcases List.mem_cons.1 hm with he | hm
      · rw [he]
        exact hdiffuse.1
      · exact hadds.grows.holds (hids _ hm)
    exact Nat.lt_irrefl _ hheld
  · have hbaseGet : t.store.get ⟨w.store.size⟩ = ⟨colorTemplate.input "value"
        ((Port.ofKind .color).wired (.literal (.color settings.color.baseColor))), none⟩ := by
      rw [hadds.grows.get _ (hgrows.holds hheld), hgrows.get _ hheld, hv]
      exact Store.get_add_self _ _
    intro n hn
    -- nothing is below the colour but the base and what was added with the colour
    have hbelow : t.store.Holds n ∧ (n = ⟨w.store.size⟩ ∨ ¬ u.store.Holds n) := by
      induction hn with
      | refl => exact ⟨hdiffuse.1, .inr hdiffuse.2⟩
      | @tail m n _ hreads ih =>
        rw [Store.Reads, hlast.get m ih.1] at hreads
        rcases ih.2 with rfl | hnew
        · rw [hbaseGet] at hreads
          cases hreads
        · exact hadds.reads m hnew n hreads
    rw [Store.design, hlast.get n hbelow.1]
    rcases hbelow.2 with rfl | hnew
    · rw [hbaseGet]
      rfl
    · exact hadds.clock n hnew

end Material

end ShaderGraph
