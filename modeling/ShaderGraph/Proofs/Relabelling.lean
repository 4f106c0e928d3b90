import Mathlib.Data.Set.Function
import ShaderGraph.Proofs.Compiles

/-!
# Relabelled graphs

Nothing but the shape of what a root reaches decides how a shader compiles. If the reached nodes of
one store are those of another one under other ids (`Store.Relabels`), a search takes the same
steps in both (`Search.run_map`), so that the walks have one diagram (`Walk.discover_relabelled`)
and the shaders, or the errors, are the same (`Store.compile_relabelled`).
-/

namespace ShaderGraph

/-! ## Searches -/

namespace Search

variable {α β : Type} (f : α → β)

def map (s : Search α) : Search β := ⟨s.found.map f, s.finished.map f⟩

def Cycle.map (c : Cycle α) : Cycle β := ⟨c.path.map f, c.found.map f⟩

def mapResult : Except (Cycle α) (Search α) → Except (Cycle β) (Search β)
  | .error c => .error (c.map f)
  | .ok s => .ok (s.map f)

theorem map_push (s : Search α) (a : α) : (⟨s.found ++ [a], s.finished⟩ : Search α).map f =
    ⟨(s.map f).found ++ [f a], (s.map f).finished⟩ := by
  simp [Search.map]

theorem map_pop (s : Search α) (a : α) : (⟨s.found, s.finished ++ [a]⟩ : Search α).map f =
    ⟨(s.map f).found, (s.map f).finished ++ [f a]⟩ := by
  simp [Search.map]

/-- What the root leads to has different names, and these lead on as it does. -/
structure Renames (next : α → List α) (next' : β → List β) (root : α) : Prop where
  injOn : Set.InjOn f {a | Reaches next root a}
  next : ∀ a, Reaches next root a → next' (f a) = (next a).map f

variable {f} {next : α → List α} {next' : β → List β} {root : α} (hf : Renames f next next' root)
include hf

theorem Renames.eq_iff {a b : α} (ha : Reaches next root a) (hb : Reaches next root b) :
    f a = f b ↔ a = b :=
  hf.injOn.eq_iff ha hb

theorem Renames.mem_map {a : α} (ha : Reaches next root a) {l : List α}
    (hl : ∀ b ∈ l, Reaches next root b) : f a ∈ l.map f ↔ a ∈ l := by
  rw [List.mem_map]
  constructor
  · rintro ⟨b, hb, he⟩
    rwa [← (hf.eq_iff (hl b hb) ha).1 he]
  · exact fun h => ⟨a, h, rfl⟩

variable [DecidableEq α] [DecidableEq β]

theorem Renames.takeWhile_map {a : α} (ha : Reaches next root a) :
    ∀ {l : List α}, (∀ b ∈ l, Reaches next root b) →
      (l.map f).takeWhile (· ≠ f a) = (l.takeWhile (· ≠ a)).map f
  | [], _ => rfl
  | b :: l, hl => by
    obtain ⟨hb, hl⟩ := List.forall_mem_cons.1 hl
    have hdecide : decide (f b ≠ f a) = decide (b ≠ a) := by simp only [ne_eq, hf.eq_iff hb ha]
    rw [List.map_cons, List.takeWhile_cons, List.takeWhile_cons, hdecide,
      Renames.takeWhile_map ha hl]
    split_ifs <;> rfl

theorem Renames.idxOf_map {a : α} (ha : Reaches next root a) :
    ∀ {l : List α}, (∀ b ∈ l, Reaches next root b) → (l.map f).idxOf (f a) = l.idxOf a
  | [], _ => rfl
  | b :: l, hl => by
    obtain ⟨hb, hl⟩ := List.forall_mem_cons.1 hl
    simp only [List.map_cons, List.idxOf_cons, beq_eq_decide, hf.eq_iff hb ha,
      Renames.idxOf_map ha hl]

/-- A search among the new names takes the same steps. -/
theorem Runs.map {path targets : List α} {s : Search α} {r : Except (Cycle α) (Search α)}
    (h : Runs next path targets s r) (hs : Explored next root path s)
    (ht : Ahead next root path targets) :
    Runs next' (path.map f) (targets.map f) (s.map f) (mapResult f r) := by
  have hpath : ∀ {path : List α} {s : Search α}, Explored next root path s →
      ∀ a ∈ path, Reaches next root a :=
    fun hs a ha => hs.reached a ((hs.mem_found a).2 (.inr ha))
  induction h with
  | done => exact .done
  | @around path rest a s hmem =>
    have ha := (ht a List.mem_cons_self).2
    have hcycle : mapResult f (.error ⟨a :: (path.takeWhile (· ≠ a)).reverse ++ [a], s.found⟩) =
        .error ⟨f a :: ((path.map f).takeWhile (· ≠ f a)).reverse ++ [f a], (s.map f).found⟩ := by
      rw [hf.takeWhile_map ha (hpath hs)]
      simp [mapResult, Cycle.map, Search.map]
    rw [hcycle]
    exact .around ((hf.mem_map ha (hpath hs)).2 hmem)
  | @known path rest a s r hmem hfound _ ih =>
    have ha := (ht a List.mem_cons_self).2
    refine .known (fun h => hmem ((hf.mem_map ha (hpath hs)).1 h)) ?_ (ih hs ht.tail)
    exact List.mem_map_of_mem hfound
  | @stopped path rest a s c hmem hfound _ ih =>
    have ha := (ht a List.mem_cons_self).2
    have hnext := ih (hs.push hfound ht) ht.push
    rw [← hf.next a ha, map_push] at hnext
    exact .stopped (fun h => hmem ((hf.mem_map ha (hpath hs)).1 h))
      (fun h => hfound ((hf.mem_map ha hs.reached).1 h)) hnext
  | @finished path rest a s s' r hmem hfound hnext _ ih ih' =>
    have ha := (ht a List.mem_cons_self).2
    obtain ⟨hs', hgrown⟩ := hnext.visited (hs.push hfound ht) ht.push
    have hnext' := ih (hs.push hfound ht) ht.push
    have hrest := ih' (hs'.pop hgrown.done) ht.tail
    rw [← hf.next a ha, map_push] at hnext'
    rw [map_pop] at hrest
    exact .finished (fun h => hmem ((hf.mem_map ha (hpath hs)).1 h))
      (fun h => hfound ((hf.mem_map ha hs.reached).1 h)) hnext' hrest

theorem run_map {depth depth' : Nat} {leaders : List α} {leaders' : List β}
    (hl : ∀ a, next a ≠ [] → a ∈ leaders) (hd : leaders.length < depth)
    (hl' : ∀ b, next' b ≠ [] → b ∈ leaders') (hd' : leaders'.length < depth') :
    run next' depth' (f root) = mapResult f (run next depth root) := by
  have hruns := (run_runs root hl hd).map hf (.start root) (ahead_root root)
  exact (run_runs (f root) hl' hd').unique hruns

end Search

/-! ## Nodes -/

variable {ρ σ τ : Type}

theorem Port.map_map (g : σ → τ) (f : ρ → σ) (p : Port ρ) : (p.map f).map g = p.map (g ∘ f) := by
  rcases p with ⟨_, _ | ⟨_ | _ | _⟩, _, _⟩ <;> rfl

theorem Port.map_congr {f g : ρ → σ} {p : Port ρ}
    (h : ∀ producer output, p.edge? = some (producer, output) → f producer = g producer) :
    p.map f = p.map g := by
  rcases p with ⟨kind, _ | ⟨value | expr | ⟨producer, output⟩⟩, broadcast, optional⟩
  · rfl
  · rfl
  · rfl
  · simp only [Port.map, Option.map_some, Source.map, h producer output rfl]

theorem Node.map_map (g : σ → τ) (f : ρ → σ) (n : Node ρ) :
    (n.map f).map g = n.map (g ∘ f) := by
  simp only [map, Table.map, List.map_map, Node.mk.injEq, Table.mk.injEq, true_and]
  exact List.map_congr_left fun input _ => Prod.ext rfl (Port.map_map g f input.2)

theorem Node.map_congr {f g : ρ → σ} {n : Node ρ}
    (h : ∀ producer ∈ n.producers, f producer = g producer) : n.map f = n.map g := by
  simp only [map, Table.map, Node.mk.injEq, Table.mk.injEq, true_and]
  refine List.map_congr_left fun input hm => Prod.ext rfl (Port.map_congr fun producer o he => ?_)
  exact h producer ((n.mem_producers producer).2 ⟨input.1, o, input.2, hm, he⟩)

/-! ## Walks -/

namespace Store

/-- The reached nodes of one store are those of another one under other ids: `f` takes one to the
other, one to one, and keeps their designs and their ports, along with the edges. -/
structure Relabels (f : NodeId → NodeId) (s : Store) (root : NodeId) (s' : Store)
    (root' : NodeId) : Prop where
  root_eq : f root = root'
  bijOn : Set.BijOn f {n | s.Reaches root n} {n | s'.Reaches root' n}
  node : ∀ n, s.Reaches root n → (s'.get (f n)).toNode = (s.get n).toNode.map f

namespace Relabels

variable {f : NodeId → NodeId} {s s' : Store} {root root' : NodeId}

/-- What `f` takes nodes to is all that the other root reaches. -/
theorem of_injOn (hroot : f root = root') (hf : Set.InjOn f {n | s.Reaches root n})
    (hnode : ∀ n, s.Reaches root n → (s'.get (f n)).toNode = (s.get n).toNode.map f) :
    s.Relabels f root s' root' := by
  have hproducers : ∀ n, s.Reaches root n → (s'.get (f n)).producers = (s.get n).producers.map f :=
    fun n hn => (congrArg Node.producers (hnode n hn)).trans (Node.producers_map _ _)
  refine ⟨hroot, ⟨fun n hn => ?_, hf, fun m hm => ?_⟩, hnode⟩
  · change s'.Reaches root' (f n)
    induction hn with
    | refl => exact hroot ▸ .refl
    | @tail a b ha hab ih =>
      refine ih.tail ?_
      rw [Reads, hproducers a ha]
      exact List.mem_map_of_mem hab
  · change ∃ n, s.Reaches root n ∧ f n = m
    induction hm with
    | refl => exact ⟨root, .refl, hroot⟩
    | @tail _ b _ hab ih =>
      obtain ⟨a, ha, rfl⟩ := ih
      rw [Reads, hproducers a ha] at hab
      obtain ⟨n, hn, rfl⟩ := List.mem_map.1 hab
      exact ⟨n, ha.tail hn, rfl⟩

variable (h : s.Relabels f root s' root')
include h

theorem design {n : NodeId} (hn : s.Reaches root n) : s'.design (f n) = s.design n := by
  change (s'.get (f n)).toNode.design = _
  rw [h.node n hn]
  rfl

theorem renames : Search.Renames f (fun n => (s.get n).producers)
    (fun n => (s'.get n).producers) root := by
  refine ⟨h.bijOn.injOn, fun n hn => ?_⟩
  have hproducers := congrArg Node.producers (h.node n hn)
  rwa [Node.producers_map] at hproducers

end Relabels

end Store

variable {f : NodeId → NodeId} {s s' : Store} {root root' : NodeId}

namespace Walk

variable (h : s.Relabels f root s' root')
include h

theorem identIn_relabelled {found : List NodeId} (hfound : ∀ n ∈ found, s.Reaches root n)
    {n : NodeId} (hn : s.Reaches root n) :
    identIn s' (found.map f) (f n) = identIn s found n := by
  rw [identIn, identIn, h.design hn, h.renames.idxOf_map hn hfound]

theorem entryIn_relabelled {found : List NodeId} (hfound : ∀ n ∈ found, s.Reaches root n)
    {n : NodeId} (hn : s.Reaches root n) :
    entryIn s' (found.map f) (f n) = entryIn s found n := by
  have hnode : (s'.get (f n)).toNode.map (found.map f).idxOf = (s.get n).toNode.map found.idxOf := by
    rw [h.node n hn, Node.map_map]
    exact Node.map_congr fun m hm => h.renames.idxOf_map (hn.tail hm) hfound
  exact congrArg₂ Entry.mk (identIn_relabelled h hfound hn) hnode

/-- The walks differ in the ids only, or they report the same cycle. -/
theorem discover_relabelled : discover s' root' =
    (discover s root).map fun w => ⟨w.ids.map f, w.diagram⟩ := by
  have hrun := Search.run_map h.renames s.mem_heldIds s.length_heldIds s'.mem_heldIds
    s'.length_heldIds
  rw [h.root_eq] at hrun
  rw [discover_eq_outcome, discover_eq_outcome, hrun]
  rcases hr : Search.run (fun n => (s.get n).producers) (s.size + 1) root with c | r
  · have hc := Search.run_error root s.mem_heldIds s.length_heldIds hr
    refine congrArg Except.error ?_
    simp only [Search.Cycle.map, List.map_map]
    refine List.map_congr_left fun n hn => ?_
    exact identIn_relabelled h hc.reached (hc.reached n (hc.found n hn))
  · have hc := Search.run_ok root s.mem_heldIds s.length_heldIds hr
    have hfound : ∀ n ∈ r.found, s.Reaches root n := fun n => (hc.mem_found n).1
    have hentries : (r.found.map f).map (entryIn s' (r.found.map f)) =
        r.found.map (entryIn s r.found) := by
      rw [List.map_map]
      exact List.map_congr_left fun n hn => entryIn_relabelled h hfound (hfound n hn)
    have horder : (r.finished.map f).map (r.found.map f).idxOf =
        r.finished.map r.found.idxOf := by
      rw [List.map_map]
      refine List.map_congr_left fun n hn => h.renames.idxOf_map ?_ hfound
      exact hfound n (hc.perm.mem_iff.1 hn)
    simp only [outcome, Search.mapResult, Search.map, Except.map, hentries, horder]

end Walk

namespace Store

/-- What a root reaches decides how it compiles, up to the ids that it is stored under: the same
shader, with the same uniforms that later updates start from, or the same error. -/
theorem compile_relabelled (h : s.Relabels f root s' root') :
    s'.compile root' = s.compile root := by
  have hdesign : s'.design root' = s.design root := by
    rw [← h.root_eq, h.design .refl]
  simp only [compile, hdesign, Walk.discover_relabelled h]
  rcases Walk.discover s root with path | w <;> rfl

end Store

section Pulse

open Library

/-- The graph of `pulse` in another order, before a node that it does not read. -/
def pulseReversed : Store :=
  let product := binaryTemplate "Multiply" .vector3 "*"
    |>.input "a" ((Port.ofKind .vector3).wired (.edge ⟨3⟩ "value"))
    |>.input "b" ⟨.vector3, some (.edge ⟨2⟩ "value"), true, false⟩
  let material := plainMaterialTemplate
    |>.input "position" ⟨.vector3, some (.edge ⟨1⟩ "value"), false, true⟩
    |>.input "color" ⟨.color, some (.edge ⟨1⟩ "value"), false, true⟩
  ⟨#[⟨material, none⟩, ⟨product, none⟩, ⟨timeTemplate, none⟩, ⟨worldPositionTemplate, none⟩,
    ⟨timeTemplate, none⟩]⟩

def reversal (n : NodeId) : NodeId := ⟨if n.index ≤ 3 then 3 - n.index else n.index + 1⟩

theorem reversal_injective : Function.Injective reversal := by
  rintro ⟨m⟩ ⟨n⟩ h
  simp only [reversal, NodeId.mk.injEq] at h ⊢
  split_ifs at h <;> omega

theorem compile_relabelled_pulse : pulse.Relabels reversal ⟨3⟩ pulseReversed ⟨0⟩ ∧
    ∃ shader, pulse.compile ⟨3⟩ = .ok shader ∧ pulseReversed.compile ⟨0⟩ = .ok shader := by
  have h : pulse.Relabels reversal ⟨3⟩ pulseReversed ⟨0⟩ := by
    refine .of_injOn rfl reversal_injective.injOn fun n _ => ?_
    rcases n with ⟨_ | _ | _ | _ | _⟩ <;> rfl
  obtain ⟨shader, hc⟩ := pulse_compiles
  exact ⟨h, shader, hc, (Store.compile_relabelled h).trans hc⟩

end Pulse

end ShaderGraph
