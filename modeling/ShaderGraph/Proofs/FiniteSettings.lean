import ShaderGraph.Proofs.Readiness
import ShaderGraph.Report

/-!
# Finite settings make a shader

Every part of the demo material is built if its numbers are finite, and fails for a literal
otherwise (`Build.ReturnsIf`). What is built is ready, so the material compiles
(`Material.build_returnsIf`). So settings make a shader exactly if all their numbers are finite, and
nothing else goes wrong in a run (`Material.compiles_iff_finite`).
-/

namespace ShaderGraph

/-! ## Programs that fail for literals only -/

/-- The error is that a literal is not a finite number. -/
def NodeError.IsNonFinite (e : NodeError) : Prop := ∃ node port, e = .fault node port .nonFinite

namespace Build

variable {α β : Type}

/-- If the condition holds, the program returns what is as described; otherwise it fails for a
literal that is not a finite number. -/
def ReturnsIf (b : Build α) (w : Workspace) (condition : Prop) (post : α → Store → Prop) : Prop :=
  (condition → ∃ a w', b.Returns w a w' ∧ post a w'.store) ∧
    (¬ condition → ∃ e, b.Fails w e ∧ e.IsNonFinite)

namespace ReturnsIf

variable {b : Build α} {w : Workspace} {p q : Prop} {post post' : α → Store → Prop}

theorem of_returns {a : α} {w' : Workspace} (h : b.Returns w a w') (hpost : post a w'.store) :
    b.ReturnsIf w True post :=
  ⟨fun _ => ⟨a, w', h, hpost⟩, fun h => absurd trivial h⟩

theorem congr (h : b.ReturnsIf w p post) (hpq : q ↔ p) : b.ReturnsIf w q post := by
  rwa [propext hpq]

theorem imp (h : b.ReturnsIf w p post) (hpost : p → ∀ a s, post a s → post' a s) :
    b.ReturnsIf w p post' := by
  refine ⟨fun hp => ?_, h.2⟩
  obtain ⟨a, w', hb, ha⟩ := h.1 hp
  exact ⟨a, w', hb, hpost hp a _ ha⟩

/-- Programs in sequence need what both need. -/
theorem bind {f : α → Build β} {next : β → Store → Prop} (h : b.ReturnsIf w p post)
    (hf : ∀ a w', post a w'.store → (f a).ReturnsIf w' q next) :
    (b >>= f).ReturnsIf w (p ∧ q) next := by
  constructor
  · rintro ⟨hp, hq⟩
    obtain ⟨a, v, hb, ha⟩ := h.1 hp
    obtain ⟨c, w', hc, hnext⟩ := (hf a v ha).1 hq
    exact ⟨c, w', returns_bind_iff.2 ⟨a, v, hb, hc⟩, hnext⟩
  · intro hpq
    by_cases hp : p
    · obtain ⟨a, v, hb, ha⟩ := h.1 hp
      obtain ⟨e, he, hfinite⟩ := (hf a v ha).2 fun hq => hpq ⟨hp, hq⟩
      exact ⟨e, fails_bind_iff.2 (.inr ⟨a, v, hb, he⟩), hfinite⟩
    · obtain ⟨e, he, hfinite⟩ := h.2 hp
      exact ⟨e, fails_bind_iff.2 (.inl he), hfinite⟩

end ReturnsIf

variable {w : Workspace} {p : Prop} {post : β → Store → Prop}

theorem returnsIf_primaryEdge_bind {id : NodeId} {f : Source NodeId → Build β} :
    (primaryEdge id >>= f).ReturnsIf w p post ↔
      (f (w.store.primaryEdge id)).ReturnsIf w p post := Iff.rfl

end Build

/-! ## Checked instances -/

namespace Port

/-- Whether the port holds no literal other than finite numbers. -/
def isFinite {ρ : Type} (p : Port ρ) : Bool :=
  match p.source with
  | some (.literal v) => v.isFinite
  | _ => true

/-- The port is served, or it holds a literal of a kind that it takes. -/
def Supplied (s : Store) (p : Port NodeId) : Prop :=
  (∃ v, p.source = some (.literal v) ∧ p.kind.accepts v.kind p.broadcast = true) ∨ p.Served s

variable {s : Store} {p : Port NodeId}

theorem Served.isFinite_eq (h : p.Served s) : p.isFinite = true := by
  have hvalid := h.valid
  rw [isFinite]
  split
  · rename_i v hv
    by_contra hn
    simp [validate, hv, hn] at hvalid
  · rfl

theorem Supplied.validate_eq (h : p.Supplied s) :
    p.validate s.design = if p.isFinite then .ok () else .error .nonFinite := by
  rcases h with ⟨v, hv, haccepts⟩ | hserved
  · simp only [validate, isFinite, hv, (accept_eq_ok_iff _ _).2 haccepts]
  · rw [hserved.valid, if_pos hserved.isFinite_eq]

theorem Supplied.served (h : p.Supplied s) (hfinite : p.isFinite = true) : p.Served s := by
  have hvalid := h.validate_eq
  rw [if_pos hfinite] at hvalid
  rcases h with ⟨v, hv, -⟩ | hserved
  · refine ⟨by rw [hv]; rfl, hvalid, fun producer output he => ?_⟩
    rw [edge?, hv] at he
    cases he
  · exact hserved

end Port

namespace Node

variable {s : Store} {t t' : Template}
  (hports : ∀ input ∈ t.inputs.entries, input.2.source = none ∨ input.2.Supplied s)
include hports

theorem validate_of_supplied {name : String} {p : Port NodeId}
    (hm : (name, p) ∈ t.inputs.entries) :
    p.validate s.design = if p.isFinite then .ok () else .error .nonFinite := by
  rcases hports _ hm with hnone | hsupplied
  · simp only at hnone
    simp only [Port.validate, Port.isFinite, hnone, if_true]
  · exact hsupplied.validate_eq

theorem check_eq_ok_iff_finite :
    t.check s = .ok () ↔ ∀ input ∈ t.inputs.entries, input.2.isFinite = true := by
  refine (forM_eq_ok_iff _ _).trans (forall₂_congr fun input hm => ?_)
  simp only [mapError_eq_ok_iff, validate_of_supplied hports hm]
  split_ifs with hfinite <;> simp [hfinite]

theorem check_onlyFails : OnlyFails NodeError.IsNonFinite (t.check s) := by
  refine .forM fun input hm => ?_
  simp only [validate_of_supplied hports hm]
  split_ifs
  · exact .ok _
  · exact .error ⟨_, _, rfl⟩

omit hports in
/-- An instance is made if its literals are finite and otherwise fit. -/
theorem instantiateWith_returnsIf {props : Props} {w : Workspace}
    (hprops : t.withProps props = .ok t')
    (hports : ∀ input ∈ t'.inputs.entries, input.2.source = none ∨ input.2.Supplied w.store) :
    (t.instantiateWith props).ReturnsIf w (∀ input ∈ t'.inputs.entries, input.2.isFinite = true)
      fun id s => id = ⟨w.store.size⟩ ∧ s = (w.store.add ⟨t', none⟩).2 := by
  rw [← check_eq_ok_iff_finite hports]
  constructor
  · intro hcheck
    exact ⟨_, _, returns_instantiateWith_iff.2 ⟨t', hprops, hcheck, rfl, rfl⟩, rfl, rfl⟩
  · intro hcheck
    rcases he : t'.check w.store with e | u
    · exact ⟨e, fails_instantiateWith hprops he, check_onlyFails hports e he⟩
    · exact absurd he hcheck

variable {kinds : Kind → Prop} {props : Props} {w : Workspace} (hemits : t.Emits kinds)
  (hprops : t.withProps props = .ok t')
omit hports
include hemits hprops

theorem instantiateWith_gives (hports : ∀ input ∈ t'.inputs.entries, input.2.Supplied w.store) :
    (t.instantiateWith props).ReturnsIf w (∀ input ∈ t'.inputs.entries, input.2.isFinite = true)
      fun id s => w.store.Grows s ∧ s.Gives kinds id := by
  refine (instantiateWith_returnsIf hprops fun input hm => .inr (hports input hm)).imp ?_
  rintro hfinite _ _ ⟨rfl, rfl⟩
  exact ⟨.add _ _, Store.gives_add (hemits.withProps hprops) fun input hm =>
    (hports input hm).served (hfinite input hm)⟩

theorem instantiateWith_waits {primary : String} {port : Port NodeId}
    (hprimary : t.primaryInput = some primary) (hport : t'.inputs.get? primary = some port)
    (hnone : port.source = none)
    (haccepts : ∀ kind, kinds kind → port.kind.accepts kind port.broadcast = true)
    (hports : ∀ input ∈ t'.inputs.entries, input.1 ≠ primary → input.2.Supplied w.store) :
    (t.instantiateWith props).ReturnsIf w (∀ input ∈ t'.inputs.entries, input.2.isFinite = true)
      (w.store.Adds kinds) := by
  have hsupplied : ∀ input ∈ t'.inputs.entries,
      input.2.source = none ∨ input.2.Supplied w.store := by
    intro input hm
    by_cases hname : input.1 = primary
    · have hget := (Table.get?_eq_some_iff _ _ _).2 hm
      rw [hname, hport] at hget
      cases hget
      exact .inl hnone
    · exact .inr (hports input hm hname)
  refine (instantiateWith_returnsIf hprops hsupplied).imp ?_
  rintro hfinite _ _ ⟨rfl, rfl⟩
  have hprimary' : t'.primaryInput = some primary := by
    rw [primaryInput, design_withProps hprops, keys_withProps hprops]
    exact hprimary
  refine ⟨.add _ _, Nat.lt_irrefl _, Store.waits_add (hemits.withProps hprops) hprimary' hport hnone
    haccepts ?_⟩
  exact fun input hm hname => (hports input hm hname).served (hfinite input hm)

end Node

/-! ## Assembled stacks -/

/-- A stack whose filters wait can be assembled, and then its tail gives what they give. -/
theorem Stack.assemble_returnsIf {s : Stack} {props : Props} {t : Template} {w : Workspace}
    {kinds : Kind → Prop} (hprops : s.head.withProps props = .ok t)
    (hports : ∀ name p, (name, p) ∈ s.inputs.entries →
      (p.given (props.source? name)).Served w.store)
    (hemits : s.head.Emits kinds) (hnodup : s.filters.Nodup)
    (hwaits : ∀ f ∈ s.filters, w.store.Waits kinds f) :
    (s.assemble props).ReturnsIf w True fun id s => w.store.Extends s ∧ s.Gives kinds id := by
  have hcheck : t.check w.store = .ok () := by
    refine (forM_eq_ok_iff _ _).2 fun input hm => (mapError_eq_ok_iff _ _ _).2 ?_
    have hname : input.1 ∈ s.inputs.keys :=
      Node.keys_withProps hprops ▸ Table.mem_keys_of_mem hm
    obtain ⟨⟨_, p⟩, hm', rfl⟩ := List.mem_map.1 hname
    have hget := Node.get?_withProps hprops _ p ((Table.get?_eq_some_iff _ _ _).2 hm')
    obtain hport : input.2 = p.given (props.source? input.1) :=
      Option.some.inj (((Table.get?_eq_some_iff _ _ _).2 hm).symm.trans hget)
    rw [hport]
    exact (hports _ p hm').valid
  have hhead := Node.returns_instantiateWith_iff.2 ⟨t, hprops, hcheck, rfl, rfl⟩
  obtain ⟨output, spec, houtput, hspec, hkind⟩ := hemits.gives
  obtain ⟨tail, w', h⟩ := exists_assemble hnodup (fun f hf => (hwaits f hf).toPasses) hhead
    houtput hspec hkind
  refine .of_returns h ?_
  obtain ⟨head, hchains⟩ := chains_of_assemble hnodup
    (fun f hf => ⟨(hwaits f hf).held, (hwaits f hf).delegate⟩) h
  exact ⟨hchains.toExtends hwaits, hchains.gives_tail hwaits
    (hchains.gives_head hwaits hemits.spelled hports hemits.gives)⟩

/-! ## Code by its letters

The letters of a text that is given as they are need not be taken out of the text again, which takes
a time that grows with the square of the length.
-/

/-- The words of a text with these letters. -/
def Glsl.wordsIn (letters : List Char) : List String :=
  (scan none letters).filterMap fun
    | .word name => some (String.ofList name)
    | .other _ => none

/-- The letters of a text that is put together. -/
theorem append_eq_ofList {a b : String} {as bs : List Char} (ha : a = String.ofList as)
    (hb : b = String.ofList bs) : a ++ b = String.ofList (as ++ bs) := by
  rw [String.ofList_append, ha, hb]

theorem Design.spelled_of_letters {d : Design} {inputs : List String} (codes : List String)
    (letters : List (List Char)) (hcodes : ∀ stage, d.codeIn stage ⊆ codes)
    (hletters : codes = letters.map String.ofList)
    (h : (letters.all fun cs => (Glsl.wordsIn cs).all (d.names inputs)) = true) :
    d.spelled inputs = true := by
  refine List.all_eq_true.2 fun stage _ => List.all_eq_true.2 fun code hm => ?_
  have hcode := hcodes stage hm
  rw [hletters] at hcode
  obtain ⟨cs, hcs, rfl⟩ := List.mem_map.1 hcode
  rw [Glsl.words, String.toList_ofList]
  exact List.all_eq_true.1 h cs hcs

/-! ## The parts of the material -/

namespace Library

/-- What a filter is apart from its inputs. -/
def timedDesign (name body : String) : Design :=
  { Design.named name with
    outputs := Table.empty.insert "value" ⟨.vector3, some "in_a"⟩
    vertex := ⟨none, some body⟩ }

theorem spelled_timed {name body : String} {inputs : List String} {letters : List Char}
    (hbody : body = String.ofList letters)
    (h : ([['i', 'n', '_', 'a'], letters].all fun cs =>
      (Glsl.wordsIn cs).all ((timedDesign name body).names inputs)) = true) :
    (timedDesign name body).spelled inputs = true := by
  refine Design.spelled_of_letters ["in_a", body] _ (fun stage => ?_) ?_ h
  · cases stage with
    | vertex => exact List.Subset.refl _
    | fragment => exact List.cons_subset_cons _ (List.nil_subset _)
  · rw [hbody]
    rfl

end Library

namespace Material

open Library

/-- The stack of the animation. -/
def animation (origin : Source NodeId) (filters : List NodeId) : Stack :=
  ⟨"Animation Stack", Table.empty.insert "origin" ((Port.ofKind .vector3).wired origin),
    Table.empty.insert "value" ⟨.vector3, some "in_origin"⟩, filters⟩

/-- The node of the rim before it gets its properties. -/
def rim (position normal : Source NodeId) : Template :=
  let number (n : Nat) : Port NodeId := (Port.ofKind .float).wired (.literal (.float (.ofNat n)))
  Node.named "Fresnel"
    |>.input "bias" (number 0)
    |>.input "intensity" (number 1)
    |>.input "power" (number 2)
    |>.input "factor" (number 1)
    |>.input "world_position" ((Port.ofKind .vector3).wired position)
    |>.input "world_normal" ((Port.ofKind .vector3).wired normal)
    |>.bodyOutput "value" .float
    |>.body .fragment fresnelBody

/-- The stack of the colour. -/
def tint (filters : List NodeId) : Stack :=
  ⟨"Color Stack", Table.empty.insert "color" (.ofKind .color),
    Table.empty.insert "value" ⟨.color, some "in_color"⟩, filters⟩

theorem spelled_rim {position normal : Source NodeId} {inputs : List String} {letters : List Char}
    (hbody : fresnelBody = String.ofList letters)
    (h : (Glsl.wordsIn letters).all ((rim position normal).design.names inputs) = true) :
    (rim position normal).design.spelled inputs = true := by
  refine Design.spelled_of_letters [fresnelBody] [letters] (fun stage => ?_) ?_ ?_
  · cases stage with
    | vertex => exact List.nil_subset _
    | fragment => exact List.Subset.refl _
  · rw [hbody, List.map_singleton]
  · rw [List.all_cons, h, List.all_nil, Bool.and_true]

/-- The code of every part names only inputs and outputs that the part has. -/
structure Spelled : Prop where
  time : timeTemplate.design.spelled [] = true
  squeeze : (timedDesign "Squeeze with Time" squeezeBody).spelled ["a", "frequency", "time"] = true
  scale : ∀ axis : Axis, (timedDesign "Scale with Time"
    s!"out_value.{axis.swizzle} *= (1.0 + sin(in_time * in_frequency) * 0.5);").spelled
      ["a", "frequency", "time"] = true
  move : ∀ axis : Axis, (timedDesign "Move with Time"
    s!"out_value.{axis.swizzle} += sin(in_time * in_frequency) * in_amplitude;").spelled
      ["a", "frequency", "time", "amplitude"] = true
  geometryPosition : geometryPositionTemplate.design.spelled [] = true
  animation : (animation (.raw "") []).head.design.spelled ["origin"] = true
  worldPosition : worldPositionTemplate.design.spelled [] = true
  worldNormal : worldNormalTemplate.design.spelled [] = true
  rim : (rim (.raw "") (.raw "")).design.spelled
    ["bias", "intensity", "power", "factor", "world_position", "world_normal"] = true
  product : (binaryTemplate "Multiply" .vector3 "*").design.spelled ["a", "b"] = true
  blend : mixTemplate.design.spelled ["a", "b", "amount"] = true
  tint : (tint []).head.design.spelled ["color"] = true
  base : colorTemplate.design.spelled ["value"] = true

theorem spelled : Spelled where
  time := by decide +kernel
  squeeze := spelled_timed rfl (by decide +kernel)
  scale axis := by
    cases axis <;>
      exact spelled_timed (append_eq_ofList (append_eq_ofList rfl rfl) rfl) (by decide +kernel)
  move axis := by
    cases axis <;>
      exact spelled_timed (append_eq_ofList (append_eq_ofList rfl rfl) rfl) (by decide +kernel)
  geometryPosition := by decide +kernel
  animation := by decide +kernel
  worldPosition := by decide +kernel
  worldNormal := by decide +kernel
  rim := spelled_rim (append_eq_ofList (append_eq_ofList rfl rfl) rfl) (by decide +kernel)
  product := by decide +kernel
  blend := by decide +kernel
  tint := by decide +kernel
  base := by decide +kernel

theorem time_emits : Node.Emits (· = .float) timeTemplate :=
  ⟨rfl, Spelled.time spelled, "value", _, rfl, rfl, rfl⟩

theorem sharedTime_emits (name : String) : Node.Emits (· = .float) (sharedTimeTemplate name) :=
  ⟨rfl, Spelled.time spelled, "value", _, rfl, rfl, rfl⟩

theorem geometryPosition_emits : Node.Emits (· = .vector3) geometryPositionTemplate :=
  ⟨rfl, Spelled.geometryPosition spelled, "value", _, rfl, rfl, rfl⟩

theorem worldPosition_emits : Node.Emits (· = .vector3) worldPositionTemplate :=
  ⟨rfl, Spelled.worldPosition spelled, "value", _, rfl, rfl, rfl⟩

theorem worldNormal_emits : Node.Emits (· = .vector3) worldNormalTemplate :=
  ⟨rfl, Spelled.worldNormal spelled, "value", _, rfl, rfl, rfl⟩

end Material

/-! ## Filters -/

/-- The numbers that a filter is made from. -/
def FilterSettings.numbers : FilterSettings → List Single
  | .squeeze frequency => [frequency]
  | .scale _ frequency => [frequency]
  | .move _ frequency amplitude => [frequency, amplitude]

/-- The numbers of a colour. -/
def Rgb.numbers (c : Rgb) : List Single := [c.red, c.green, c.blue]

namespace Library

/-- The node of a filter before it gets its properties. -/
def timed (name body : String) (time : Source NodeId) : Template :=
  Node.named name
    |>.input "a" (.ofKind .vector3)
    |>.input "frequency" ((Port.ofKind .float).wired (.literal (.float (.ofNat 1))))
    |>.input "time" ((Port.ofKind .float).wired time)
    |>.output "value" .vector3 "in_a"
    |>.body .vertex body

/-- The node of a filter that has an amplitude as well. -/
def swung (name body : String) (time : Source NodeId) : Template :=
  timed name "" time
    |>.input "amplitude" ((Port.ofKind .float).wired (.literal (.float (.ofNat 1))))
    |>.body .vertex body

theorem timed_emits {name body : String} (time : Source NodeId)
    (h : (timedDesign name body).spelled ["a", "frequency", "time"] = true) :
    (timed name body time).Emits (· = .vector3) :=
  ⟨rfl, h, "value", _, rfl, rfl, rfl⟩

theorem swung_emits {name body : String} (time : Source NodeId)
    (h : (timedDesign name body).spelled ["a", "frequency", "time", "amplitude"] = true) :
    (swung name body time).Emits (· = .vector3) :=
  ⟨rfl, h, "value", _, rfl, rfl, rfl⟩

theorem withProps_timed (name body : String) (own : Source NodeId) (frequency : Source NodeId)
    (shared : Option (Source NodeId)) : ∃ t, (timed name body own).withProps
      (("frequency", frequency) :: (shared.map fun e => ("time", e)).toList) = .ok t ∧
    t.inputs.entries = [("a", .ofKind .vector3),
      ("frequency", (Port.ofKind .float).wired frequency),
      ("time", (Port.ofKind .float).wired (shared.getD own))] := by
  rcases shared with _ | e <;> exact ⟨_, rfl, rfl⟩

theorem withProps_swung (name body : String) (own frequency amplitude : Source NodeId)
    (shared : Option (Source NodeId)) : ∃ t, (swung name body own).withProps
      (("frequency", frequency) :: ("amplitude", amplitude) ::
        (shared.map fun e => ("time", e)).toList) = .ok t ∧
    t.inputs.entries = [("a", .ofKind .vector3),
      ("frequency", (Port.ofKind .float).wired frequency),
      ("time", (Port.ofKind .float).wired (shared.getD own)),
      ("amplitude", (Port.ofKind .float).wired amplitude)] := by
  rcases shared with _ | e <;> exact ⟨_, rfl, rfl⟩

end Library

namespace Material

open Library

theorem isFinite_number (x : Single) :
    ((Port.ofKind .float : Port NodeId).wired (number x)).isFinite = x.isFinite := Bool.and_true _

/-- A timed node is made if its numbers are finite, and it waits for the value that it filters. -/
theorem timed_returnsIf {t t' : Template} {props : Props} {w : Workspace} {time : Source NodeId}
    {frequency : Single} (amplitudes : List Single) (hemits : t.Emits (· = .vector3))
    (hprimary : t.primaryInput = some "a") (hprops : t.withProps props = .ok t')
    (hinputs : t'.inputs.entries = ("a", Port.ofKind .vector3) ::
      ("frequency", (Port.ofKind .float).wired (number frequency)) ::
      ("time", (Port.ofKind .float).wired time) ::
      amplitudes.map fun x => ("amplitude", (Port.ofKind .float).wired (number x)))
    (htime : ((Port.ofKind .float).wired time).Served w.store) :
    (t.instantiateWith props).ReturnsIf w (∀ x ∈ frequency :: amplitudes, x.isFinite = true)
      (w.store.Adds (· = .vector3)) := by
  have hport : t'.inputs.get? "a" = some (.ofKind .vector3) := by
    rw [Table.get?_eq_some_iff, hinputs]
    exact List.mem_cons_self
  have hnumber : ∀ x, ((Port.ofKind .float).wired (number x)).Supplied w.store :=
    fun x => .inl ⟨.float x, rfl, rfl⟩
  have hwaits := Node.instantiateWith_waits hemits hprops hprimary hport rfl
    (by rintro _ rfl; rfl) (w := w) (by
      rw [hinputs]
      simp only [List.forall_mem_cons, List.forall_mem_map]
      exact ⟨fun h => absurd rfl h, fun _ => hnumber _, fun _ => .inr htime,
        fun x _ _ => hnumber x⟩)
  refine hwaits.congr ?_
  rw [hinputs]
  simp only [List.forall_mem_cons, List.forall_mem_map]
  simp only [isFinite_number, htime.isFinite_eq, true_and]
  exact ⟨fun h => ⟨rfl, h⟩, fun h => h.2⟩

/-- The type of a filter and its properties apart from a shared time. -/
def typeOf : FilterSettings → NodeType × Props
  | .squeeze frequency => (squeezeType, [("frequency", number frequency)])
  | .scale axis frequency => (scaleType axis, [("frequency", number frequency)])
  | .move axis frequency amplitude =>
    (moveType axis, [("frequency", number frequency), ("amplitude", number amplitude)])

theorem make_returnsIf (f : FilterSettings) (w : Workspace) (shared : Option (Source NodeId))
    (hshared : ∀ e ∈ shared, ((Port.ofKind .float).wired e).Served w.store) :
    ((typeOf f).1.make ((typeOf f).2 ++ (shared.map fun e => ("time", e)).toList)).ReturnsIf w
      (∀ x ∈ f.numbers, x.isFinite = true) (w.store.Adds (· = .vector3)) := by
  have hgrows := Store.Grows.add w.store ⟨timeTemplate, none⟩
  have hown := (Store.gives_add (s := w.store) time_emits (List.forall_mem_nil _)).served
    (p := .ofKind .float) (by rintro _ rfl; rfl)
  have htime : ((Port.ofKind .float).wired (shared.getD
      ((w.store.add ⟨timeTemplate, none⟩).2.primaryEdge ⟨w.store.size⟩))).Served
        (w.store.add ⟨timeTemplate, none⟩).2 := by
    rcases shared with _ | e
    · exact hown
    · exact hgrows.toExtends.served (hshared e rfl)
  generalize hedge : (w.store.add ⟨timeTemplate, none⟩).2.primaryEdge ⟨w.store.size⟩ = own at htime
  have hadds : ∀ id s, (w.store.add ⟨timeTemplate, none⟩).2.Adds (· = .vector3) id s →
      w.store.Adds (· = .vector3) id s := fun _ _ h => h.of_grows hgrows
  rcases f with frequency | ⟨axis, frequency⟩ | ⟨axis, frequency, amplitude⟩
  · obtain ⟨t, hprops, hinputs⟩ := withProps_timed "Squeeze with Time" squeezeBody own
      (number frequency) shared
    rw [← hedge] at hprops
    exact (timed_returnsIf (w := ⟨_, w.notices⟩) [] (timed_emits _ (Spelled.squeeze spelled)) rfl
      hprops hinputs htime).imp fun _ => hadds
  · obtain ⟨t, hprops, hinputs⟩ := withProps_timed "Scale with Time" _ own
      (number frequency) shared
    rw [← hedge] at hprops
    exact (timed_returnsIf (w := ⟨_, w.notices⟩) [] (timed_emits _ (Spelled.scale spelled axis)) rfl
      hprops hinputs htime).imp fun _ => hadds
  · obtain ⟨t, hprops, hinputs⟩ := withProps_swung "Move with Time" _ own
      (number frequency) (number amplitude) shared
    rw [← hedge] at hprops
    exact (timed_returnsIf (w := ⟨_, w.notices⟩) [amplitude]
      (swung_emits _ (Spelled.move spelled axis)) rfl hprops hinputs htime).imp fun _ => hadds

/-- A filter is made if its numbers are finite. -/
theorem filter_returnsIf (f : FilterSettings) (clock : Option String) (w : Workspace) :
    (filter f clock).ReturnsIf w (∀ x ∈ f.numbers, x.isFinite = true)
      (w.store.Adds (· = .vector3)) := by
  rcases clock with _ | name
  · have h := make_returnsIf f w none fun _ he => absurd he (Option.not_mem_none _)
    rw [Option.map_none, Option.toList_none, List.append_nil] at h
    rcases f <;> exact h
  · have hgrows := Store.Grows.add w.store ⟨sharedTimeTemplate name, none⟩
    have hshared := (Store.gives_add (s := w.store) (sharedTime_emits name)
      (List.forall_mem_nil _)).served (p := .ofKind .float) (by rintro _ rfl; rfl)
    have h := make_returnsIf f ⟨_, w.notices⟩ (some _) (by rintro _ ⟨⟩; exact hshared)
    have h' := h.imp fun _ _ _ hadds => hadds.of_grows hgrows
    rcases f <;> exact h'

theorem filters_returnsIf (clock : Option String) : ∀ (fs : List FilterSettings) (w : Workspace),
    (fs.mapM fun f => filter f clock).ReturnsIf w (∀ f ∈ fs, ∀ x ∈ f.numbers, x.isFinite = true)
      fun ids s => w.store.Grows s ∧ ids.Nodup ∧
        ∀ id ∈ ids, ¬ w.store.Holds id ∧ s.Waits (· = .vector3) id
  | [], w => by
    refine (Build.ReturnsIf.of_returns (Build.returns_pure_iff.2 ⟨rfl, rfl⟩) ?_).congr (by simp)
    exact ⟨.refl _, List.nodup_nil, List.forall_mem_nil _⟩
  | f :: fs, w => by
    rw [List.mapM_cons]
    refine ((filter_returnsIf f clock w).bind (q := ∀ f ∈ fs, ∀ x ∈ f.numbers, x.isFinite = true)
      fun id v hid => ?_).congr (by rw [List.forall_mem_cons])
    refine ((filters_returnsIf clock fs v).bind (q := True) fun ids u hids => ?_).congr
      (by rw [and_true])
    refine .of_returns (Build.returns_pure_iff.2 ⟨rfl, rfl⟩) ?_
    obtain ⟨hgrows, hnodup, hids⟩ := hids
    have hheld : v.store.Holds id := hid.waits.held
    refine ⟨hid.grows.trans hgrows, ?_, List.forall_mem_cons.2 ⟨⟨hid.fresh, ?_⟩, fun g hg => ?_⟩⟩
    · exact List.nodup_cons.2 ⟨fun hm => (hids id hm).1 hheld, hnodup⟩
    · exact hid.waits.mono hgrows.toExtends (hgrows.get id hheld)
    · exact ⟨fun h => (hids g hg).1 (Nat.lt_of_lt_of_le h hid.grows.size), (hids g hg).2⟩

/-! ## The two stacks -/

theorem foldl_filter (stack : Stack) (ids : List NodeId) :
    ids.foldl Stack.filter stack = { stack with filters := stack.filters ++ ids } := by
  induction ids generalizing stack with
  | nil => simp
  | cons id ids ih =>
    rw [List.foldl_cons, ih, Stack.filter]
    simp

theorem animationStack_returnsIf (settings : AnimationSettings) (w : Workspace) :
    (animationStack settings).ReturnsIf w
      (∀ f ∈ settings.filters, ∀ x ∈ f.numbers, x.isFinite = true) fun stack s =>
        ∃ origin ids, stack = animation origin ids ∧ w.store.Grows s ∧
          ((Port.ofKind .vector3).wired origin).Served s ∧ ids.Nodup ∧
          ∀ id ∈ ids, s.Waits (· = .vector3) id := by
  unfold animationStack
  refine ((filters_returnsIf settings.sharedClock settings.filters w).bind (q := True)
    fun ids v hids => ?_).congr (by rw [and_true])
  obtain ⟨hgrows, hnodup, hids⟩ := hids
  have hadd := Store.Grows.add v.store ⟨geometryPositionTemplate, none⟩
  have hposition := (Store.gives_add (s := v.store) geometryPosition_emits
    (List.forall_mem_nil _)).served (p := .ofKind .vector3) (by rintro _ rfl; rfl)
  refine ⟨fun _ => ⟨animation _ ids, ⟨_, v.notices⟩, Build.returns_pure_iff.2 ⟨?_, rfl⟩, _, ids,
    rfl, hgrows.trans hadd, hposition, hnodup, fun id hm => ?_⟩, fun h => absurd trivial h⟩
  · rw [foldl_filter]
    rfl
  · exact (hids id hm).2.mono hadd.toExtends (hadd.get id (hids id hm).2.held)

theorem animation_emits (origin : Source NodeId) (filters : List NodeId) :
    (animation origin filters).head.Emits (· = .vector3) :=
  ⟨rfl, Spelled.animation spelled, "value", _, rfl, rfl, rfl⟩

theorem animation_returnsIf (settings : AnimationSettings) (w : Workspace) :
    (animationType settings).instantiate.ReturnsIf w
      (∀ f ∈ settings.filters, ∀ x ∈ f.numbers, x.isFinite = true) fun id s =>
        w.store.Extends s ∧ s.Gives (· = .vector3) id := by
  refine ((animationStack_returnsIf settings w).bind (q := True) fun stack v hstack => ?_).congr
    (by rw [and_true])
  obtain ⟨origin, ids, rfl, hgrows, horigin, hnodup, hwaits⟩ := hstack
  have hprops : (animation origin ids).head.withProps [] = .ok (animation origin ids).head := rfl
  refine (Stack.assemble_returnsIf hprops ?_ (animation_emits origin ids) hnodup hwaits).imp ?_
  · intro name p hm
    obtain ⟨rfl, rfl⟩ := Prod.mk.inj (List.mem_singleton.1 hm)
    exact horigin
  · exact fun _ id s h => ⟨hgrows.toExtends.trans h.1, h.2⟩

/-! ### Colour -/

theorem rim_emits (position normal : Source NodeId) : (rim position normal).Emits (· = .float) :=
  ⟨rfl, Spelled.rim spelled, "value", _, rfl, rfl, rfl⟩

theorem withProps_rim (position normal power : Source NodeId) : ∃ t,
    (rim position normal).withProps [("power", power)] = .ok t ∧
    t.inputs.entries = [("bias", (Port.ofKind .float).wired (number (.ofNat 0))),
      ("intensity", (Port.ofKind .float).wired (number (.ofNat 1))),
      ("power", (Port.ofKind .float).wired power),
      ("factor", (Port.ofKind .float).wired (number (.ofNat 1))),
      ("world_position", (Port.ofKind .vector3).wired position),
      ("world_normal", (Port.ofKind .vector3).wired normal)] :=
  ⟨_, rfl, rfl⟩

theorem rim_returnsIf (power : Single) (w : Workspace) :
    (fresnelType.make [("power", number power)]).ReturnsIf w (power.isFinite = true) fun id s =>
      w.store.Grows s ∧ s.Gives (· = .float) id := by
  let s₁ := (w.store.add ⟨worldPositionTemplate, none⟩).2
  let s₂ := (s₁.add ⟨worldNormalTemplate, none⟩).2
  have hgrows : w.store.Grows s₂ := (Store.Grows.add w.store _).trans (.add s₁ _)
  have hposition : s₂.Gives (· = .vector3) ⟨w.store.size⟩ :=
    (Store.gives_add worldPosition_emits (List.forall_mem_nil _)).mono
      (Store.Grows.add s₁ _).toExtends
  have hnormal : s₂.Gives (· = .vector3) ⟨s₁.size⟩ :=
    Store.gives_add worldNormal_emits (List.forall_mem_nil _)
  have hedge : ∀ n, s₂.Gives (· = .vector3) n →
      ((Port.ofKind .vector3).wired (s₂.primaryEdge n)).Served s₂ :=
    fun n hn => hn.served (by rintro _ rfl; rfl)
  obtain ⟨t, hprops, hinputs⟩ := withProps_rim (s₂.primaryEdge ⟨w.store.size⟩)
    (s₂.primaryEdge ⟨s₁.size⟩) (number power)
  have hnumber : ∀ x, ((Port.ofKind .float).wired (number x)).Supplied s₂ :=
    fun x => .inl ⟨.float x, rfl, rfl⟩
  have h := Node.instantiateWith_gives (w := ⟨s₂, w.notices⟩) (rim_emits _ _) hprops (by
    rw [hinputs]
    simp only [List.forall_mem_cons]
    exact ⟨hnumber _, hnumber _, hnumber _, hnumber _, .inr (hedge _ hposition),
      .inr (hedge _ hnormal), List.forall_mem_nil _⟩)
  have hzero : Binary.isFinite (.ofNat 0 : Single) = true := by decide
  have hone : Binary.isFinite (.ofNat 1 : Single) = true := by decide
  have hfinite :
      power.isFinite = true ↔ ∀ input ∈ t.inputs.entries, input.2.isFinite = true := by
    rw [hinputs]
    simp [isFinite_number, hzero, hone, (hedge _ hposition).isFinite_eq,
      (hedge _ hnormal).isFinite_eq]
  have h' := (h.congr hfinite).imp fun _ _ _ hs => And.intro (hgrows.trans hs.1) hs.2
  exact h'

theorem product_emits : (binaryTemplate "Multiply" .vector3 "*").Emits (· = .vector3) :=
  ⟨rfl, Spelled.product spelled, "value", _, rfl, rfl, rfl⟩

theorem withProps_product (a b : Source NodeId) : ∃ t,
    (binaryTemplate "Multiply" .vector3 "*").withProps [("a", a), ("b", b)] = .ok t ∧
    t.inputs.entries = [("a", (Port.ofKind .vector3).wired a),
      ("b", ⟨.vector3, some b, true, false⟩)] :=
  ⟨_, rfl, rfl⟩

theorem highlight_returnsIf (c : Rgb) (factor : Source NodeId) (w : Workspace)
    (hfactor : (⟨.vector3, some factor, true, false⟩ : Port NodeId).Served w.store) :
    ((multiplyType .vector3).make [("a", .literal (.vector3 c.red c.green c.blue)),
      ("b", factor)]).ReturnsIf w (∀ x ∈ c.numbers, x.isFinite = true) fun id s =>
        w.store.Grows s ∧ s.Gives (· = .vector3) id := by
  obtain ⟨t, hprops, hinputs⟩ :=
    withProps_product (.literal (.vector3 c.red c.green c.blue)) factor
  have h := Node.instantiateWith_gives (w := w) product_emits hprops (by
    rw [hinputs]
    simp only [List.forall_mem_cons]
    exact ⟨.inl ⟨_, rfl, rfl⟩, .inr hfactor, List.forall_mem_nil _⟩)
  refine Build.ReturnsIf.congr h ?_
  rw [hinputs]
  simp only [List.forall_mem_cons, hfactor.isFinite_eq, true_and]
  simp [Port.isFinite, Port.wired, Value.isFinite, Value.components, Rgb.numbers]

/-- The kinds that carry colours. -/
def Tinted (kind : Kind) : Prop := kind = .color ∨ kind = .vector3

theorem blend_emits : mixTemplate.Emits Tinted :=
  ⟨rfl, Spelled.blend spelled, "value", _, rfl, rfl, .inr rfl⟩

theorem withProps_blend (b amount : Source NodeId) : ∃ t,
    mixTemplate.withProps [("b", b), ("amount", amount)] = .ok t ∧
    t.inputs.entries = [("a", .ofKind .vector3), ("b", (Port.ofKind .vector3).wired b),
      ("amount", (Port.ofKind .float).wired amount)] :=
  ⟨_, rfl, rfl⟩

theorem blend_returnsIf (amount : Single) (b : Source NodeId) (w : Workspace)
    (hb : ((Port.ofKind .vector3).wired b).Served w.store) :
    (mixType.make [("b", b), ("amount", number amount)]).ReturnsIf w (amount.isFinite = true)
      (w.store.Adds Tinted) := by
  obtain ⟨t, hprops, hinputs⟩ := withProps_blend b (number amount)
  have hport : t.inputs.get? "a" = some (.ofKind .vector3) := by
    rw [Table.get?_eq_some_iff, hinputs]
    exact List.mem_cons_self
  have h := Node.instantiateWith_waits (w := w) blend_emits hprops rfl hport rfl
    (by rintro _ (rfl | rfl) <;> rfl) (by
      rw [hinputs]
      simp only [List.forall_mem_cons]
      exact ⟨fun h => absurd rfl h, fun _ => .inr hb, fun _ => .inl ⟨.float amount, rfl, rfl⟩,
        List.forall_mem_nil _⟩)
  refine Build.ReturnsIf.congr h ?_
  rw [hinputs]
  simp only [List.forall_mem_cons, isFinite_number, hb.isFinite_eq, true_and]
  exact ⟨fun h => ⟨rfl, h, List.forall_mem_nil _⟩, fun h => h.2.1⟩

theorem colorStack_returnsIf (settings : ColorSettings) (w : Workspace) :
    (colorStack settings).ReturnsIf w (settings.fresnelPower.isFinite = true ∧
      (∀ x ∈ settings.highlight.numbers, x.isFinite = true) ∧
        settings.mixAmount.isFinite = true) fun stack s =>
      ∃ blend, stack = tint [blend] ∧ w.store.Grows s ∧ s.Waits Tinted blend := by
  unfold colorStack
  refine (rim_returnsIf settings.fresnelPower w).bind fun rim v hrim => ?_
  rw [Build.returnsIf_primaryEdge_bind]
  refine (highlight_returnsIf settings.highlight _ v (hrim.2.served
    (p := ⟨.vector3, none, true, false⟩) (by rintro _ rfl; rfl))).bind fun highlight u hhigh => ?_
  rw [Build.returnsIf_primaryEdge_bind]
  refine ((blend_returnsIf settings.mixAmount _ u (hhigh.2.served (by rintro _ rfl; rfl))).bind
    (q := True) fun blend t hblend => ?_).congr (by rw [and_true])
  exact .of_returns (Build.returns_pure_iff.2 ⟨rfl, rfl⟩)
    ⟨blend, rfl, hrim.1.trans (hhigh.1.trans hblend.grows), hblend.waits⟩

theorem tint_emits (filters : List NodeId) : (tint filters).head.Emits Tinted :=
  ⟨rfl, Spelled.tint spelled, "value", _, rfl, rfl, .inl rfl⟩

theorem color_returnsIf (settings : ColorSettings) (base : Source NodeId) (w : Workspace)
    (hbase : ((Port.ofKind .color).wired base).Served w.store) :
    ((colorType settings).make [("color", base)]).ReturnsIf w
      (settings.fresnelPower.isFinite = true ∧
        (∀ x ∈ settings.highlight.numbers, x.isFinite = true) ∧
          settings.mixAmount.isFinite = true) fun id s =>
        w.store.Extends s ∧ s.Gives Tinted id := by
  refine ((colorStack_returnsIf settings w).bind (q := True) fun stack v hstack => ?_).congr
    (by rw [and_true])
  obtain ⟨blend, rfl, hgrows, hwaits⟩ := hstack
  have hprops : (tint [blend]).head.withProps [("color", base)] =
      .ok ((tint [blend]).head.input "color" ((Port.ofKind .color).wired base)) := rfl
  refine (Stack.assemble_returnsIf hprops ?_ (tint_emits [blend]) (List.nodup_singleton _)
    (List.forall_mem_singleton.2 hwaits)).imp ?_
  · intro name p hm
    obtain ⟨rfl, rfl⟩ := Prod.mk.inj (List.mem_singleton.1 hm)
    exact hgrows.toExtends.served hbase
  · exact fun _ id s h => ⟨hgrows.toExtends.trans h.1, h.2⟩

/-! ## The material -/

/-- A port of a slot, which may stay without a source. -/
def slotPort (kind : Kind) (source : Option (Source NodeId)) : Port NodeId :=
  ⟨kind, source, false, true⟩

theorem withProps_master (position diffuse : Source NodeId) : ∃ t,
    customMaterialTemplate.withProps [("position", position), ("diffuse_color", diffuse)] = .ok t ∧
    t.design = customMaterialTemplate.design ∧
    t.inputs.entries = [("position", slotPort .vector3 position),
      ("normal", slotPort .vector3 none), ("diffuse_color", slotPort .color diffuse),
      ("emissive_color", slotPort .color none), ("roughness", slotPort .float none),
      ("metalness", slotPort .float none)] :=
  ⟨_, rfl, rfl, rfl⟩

theorem master_targets :
    (customMaterialTemplate.design.slots.entries.map fun entry => entry.2.target).Nodup := by
  decide

/-- A master whose two sources are served is made and compiles. -/
theorem master_returnsIf (position diffuse : Source NodeId) (w : Workspace)
    (hposition : (slotPort .vector3 position).Served w.store)
    (hdiffuse : (slotPort .color diffuse).Served w.store) :
    (customMaterialType.make [("position", position), ("diffuse_color", diffuse)]).ReturnsIf w True
      fun id s => ∃ shader, s.compile id = .ok shader := by
  obtain ⟨t, hprops, hdesign, hinputs⟩ := withProps_master position diffuse
  have hports : ∀ input ∈ t.inputs.entries,
      input.2.Served w.store ∨ input.2.source = none ∧ input.2.optional = true := by
    rw [hinputs]
    simp only [List.forall_mem_cons]
    exact ⟨.inl hposition, .inr ⟨rfl, rfl⟩, .inl hdiffuse, .inr ⟨rfl, rfl⟩, .inr ⟨rfl, rfl⟩,
      .inr ⟨rfl, rfl⟩, List.forall_mem_nil _⟩
  have h := Node.instantiateWith_returnsIf (w := w) hprops fun input hm =>
    (hports input hm).elim (fun hserved => .inr (.inr hserved)) fun hnone => .inl hnone.1
  refine (Build.ReturnsIf.congr h ?_).imp ?_
  · refine iff_of_true trivial fun input hm => ?_
    rcases hports input hm with hserved | ⟨hnone, -⟩
    · exact hserved.isFinite_eq
    · rw [Port.isFinite, hnone]
  · rintro - _ _ ⟨rfl, rfl⟩
    have hget := w.store.get_add_self ⟨t, none⟩
    have hext := (Store.Grows.add w.store ⟨t, none⟩).toExtends
    refine Store.compiles_of_ready ?_ (fun name p hm => ?_) ?_ fun m hr => ?_
    · rw [Store.design, hget, hdesign]
      rfl
    · rw [hget] at hm
      rcases hports (name, p) hm with hserved | hnone
      · exact .inl ⟨hserved.source, (hext.served hserved).valid⟩
      · exact .inr hnone
    · rw [Store.design, hget, hdesign]
      exact master_targets
    · rw [Store.Reads, hget] at hr
      obtain ⟨name, output, p, hm, he⟩ := (Node.mem_producers _ _).1 hr
      rcases hports (name, p) hm with hserved | ⟨hnone, -⟩
      · exact hext.ready (hserved.ready m output he)
      · rw [Port.edge?, hnone] at he
        cases he

theorem color_emits : colorTemplate.Emits (· = .color) :=
  ⟨rfl, Spelled.base spelled, "value", _, rfl, rfl, rfl⟩

theorem base_returnsIf (c : Rgb) (w : Workspace) :
    (colorTemplate.instantiateWith [("value", .literal (.color c))]).ReturnsIf w
      (∀ x ∈ c.numbers, x.isFinite = true) fun id s =>
        w.store.Grows s ∧ s.Gives (· = .color) id := by
  have hprops : colorTemplate.withProps [("value", .literal (.color c))] =
      .ok (colorTemplate.input "value" ((Port.ofKind .color).wired (.literal (.color c)))) := rfl
  have h := Node.instantiateWith_gives (w := w) color_emits hprops
    (List.forall_mem_singleton.2 (.inl ⟨_, rfl, rfl⟩))
  refine Build.ReturnsIf.congr h ?_
  rw [show (colorTemplate.input "value" ((Port.ofKind .color).wired
    (.literal (.color c)))).inputs.entries = [("value", (Port.ofKind .color).wired
      (.literal (.color c)))] from rfl, List.forall_mem_singleton]
  simp [Port.isFinite, Port.wired, Value.isFinite, Value.components, Rgb.numbers]

end Material

/-- All numbers that reach the graph of the material. -/
def Settings.numbers (s : Settings) : List Single :=
  s.animation.filters.flatMap FilterSettings.numbers ++ s.color.baseColor.numbers ++
    s.color.highlight.numbers ++ [s.color.mixAmount, s.color.fresnelPower]

def Settings.Finite (s : Settings) : Prop := ∀ x ∈ s.numbers, x.isFinite = true

namespace Material

/-- The material is built and compiles if the numbers of its settings are finite. -/
theorem build_returnsIf (settings : Settings) (w : Workspace) :
    (build settings).ReturnsIf w settings.Finite
      fun id s => ∃ shader, s.compile id = .ok shader := by
  have hall : settings.Finite ↔ (∀ x ∈ settings.color.baseColor.numbers, x.isFinite = true) ∧
      (∀ f ∈ settings.animation.filters, ∀ x ∈ f.numbers, x.isFinite = true) ∧
      (settings.color.fresnelPower.isFinite = true ∧
        (∀ x ∈ settings.color.highlight.numbers, x.isFinite = true) ∧
          settings.color.mixAmount.isFinite = true) ∧ True := by
    simp only [Settings.Finite, Settings.numbers, List.forall_mem_append, List.forall_mem_flatMap,
      List.forall_mem_cons]
    tauto
  refine Build.ReturnsIf.congr ?_ hall
  unfold build
  refine (base_returnsIf settings.color.baseColor w).bind fun base v hbase => ?_
  refine (animation_returnsIf settings.animation v).bind fun position u hposition => ?_
  rw [Build.returnsIf_primaryEdge_bind]
  have hedge := (hbase.2.mono hposition.1).served (p := .ofKind .color) (by rintro _ rfl; rfl)
  refine (color_returnsIf settings.color _ u hedge).bind fun diffuse t hdiffuse => ?_
  rw [Build.returnsIf_primaryEdge_bind, Build.returnsIf_primaryEdge_bind]
  refine master_returnsIf _ _ t ?_ ?_
  · exact (hposition.2.mono hdiffuse.1).served (p := slotPort .vector3 none) (by rintro _ rfl; rfl)
  · exact hdiffuse.2.served (p := slotPort .color none) (by rintro _ (rfl | rfl) <;> rfl)

theorem run_of_returns {settings : Settings} {master : NodeId} {w : Workspace} {shader : Shader}
    (h : (build settings).Returns default master w)
    (hshader : w.store.compile master = .ok shader) :
    ∃ report, Report.run settings = .ok report := by
  have hok : Report.shader settings = .ok shader := by
    unfold Build.Returns at h
    rw [Report.shader, h]
    change (w.store.compile master).mapError _ = _
    rw [hshader]
    rfl
  rw [Report.run, hok]
  exact ⟨_, rfl⟩

theorem run_of_fails {settings : Settings} {e : NodeError}
    (h : (build settings).Fails default e) : Report.run settings = .error (.node e) := by
  unfold Build.Fails at h
  rw [Report.run, Report.shader]
  rcases hb : (build settings).run.run default with ⟨e' | master, w⟩
  · rw [hb] at h
    cases h
    rfl
  · rw [hb] at h
    cases h

/-- A material is made and compiles exactly if every number in its settings is finite; if one is
not, some port holds a literal that is not, and a run reports nothing else. -/
theorem compiles_iff_finite (settings : Settings) :
    (∀ w, (∃ master w' shader, (build settings).Returns w master w' ∧
      w'.store.compile master = .ok shader) ↔ settings.Finite) ∧
    (∀ w, ¬ settings.Finite → ∃ node port, (build settings).Fails w (.fault node port .nonFinite)) ∧
    ((∃ report, Report.run settings = .ok report) ↔ settings.Finite) ∧
    ∀ e, Report.run settings = .error e → ∃ node port, e = .node (.fault node port .nonFinite) := by
  have hbuild := build_returnsIf settings
  refine ⟨fun w => ⟨?_, fun h => ?_⟩, fun w h => ?_, ?_⟩
  · rintro ⟨master, w', shader, hreturns, -⟩
    by_contra hnot
    obtain ⟨e, he, -⟩ := (hbuild w).2 hnot
    exact hreturns.not_fails he
  · obtain ⟨master, w', hreturns, shader, hshader⟩ := (hbuild w).1 h
    exact ⟨master, w', shader, hreturns, hshader⟩
  · obtain ⟨_, he, node, port, rfl⟩ := (hbuild w).2 h
    exact ⟨node, port, he⟩
  · by_cases h : settings.Finite
    · obtain ⟨master, w', hreturns, shader, hshader⟩ := (hbuild default).1 h
      obtain ⟨report, hreport⟩ := run_of_returns hreturns hshader
      rw [hreport]
      exact ⟨iff_of_true ⟨report, rfl⟩ h, nofun⟩
    · obtain ⟨_, he, node, port, rfl⟩ := (hbuild default).2 h
      rw [run_of_fails he]
      exact ⟨iff_of_false nofun h, fun _ he => ⟨node, port, (Except.error.inj he).symm⟩⟩

end Material

end ShaderGraph
