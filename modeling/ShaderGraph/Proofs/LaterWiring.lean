import Mathlib.Data.List.Nodup
import ShaderGraph.Proofs.Wiring

/-!
# Properties are wiring afterwards

A template can be given properties when it becomes an instance, or be wired as an instance one
input after the other. A template with properties is known in closed form
(`Node.withProps_eq_ok_iff`), and so is what is left behind by the wiring
(`Node.returns_wiring_iff`). The two ways differ in when a source is checked only, so that they
agree where every check succeeds (`Node.instantiateWith_agrees`).
-/

namespace ShaderGraph

namespace Props

theorem mem_of_source? {props : Props} {name : String} {source : Source NodeId}
    (h : props.source? name = some source) : (name, source) ∈ props := by
  obtain ⟨⟨other, _⟩, hfind, rfl⟩ := Option.map_eq_some_iff.1 h
  have hname : other = name := by simpa using List.find?_some hfind
  rw [← hname]
  exact List.mem_reverse.1 (List.mem_of_find?_eq_some hfind)

theorem source?_eq_none_iff {props : Props} {name : String} :
    props.source? name = none ↔ name ∉ props.map Prod.fst := by
  rw [source?, Option.map_eq_none_iff, List.find?_eq_none]
  simp only [List.mem_reverse, decide_eq_true_eq, List.mem_map, not_exists, not_and]

/-- If names are given once, every property is the one of its name. -/
theorem source?_eq_some_iff {props : Props} (hnodup : (props.map Prod.fst).Nodup) {name : String}
    {source : Source NodeId} : props.source? name = some source ↔ (name, source) ∈ props := by
  refine ⟨mem_of_source?, fun hm => ?_⟩
  rcases hlast : props.source? name with _ | last
  · exact absurd (List.mem_map_of_mem hm) (source?_eq_none_iff.1 hlast)
  · have hpair := List.inj_on_of_nodup_map hnodup (mem_of_source? hlast) hm rfl
    rw [(Prod.mk.inj hpair).2]

theorem source?_perm {props props' : Props} (hperm : props'.Perm props)
    (hnodup : (props.map Prod.fst).Nodup) (name : String) :
    props'.source? name = props.source? name := by
  refine Option.ext fun source => ?_
  rw [source?_eq_some_iff hnodup, source?_eq_some_iff ((hperm.map _).nodup_iff.2 hnodup),
    hperm.mem_iff]

end Props

namespace Node

/-- The template whose inputs have the last sources that properties give them. -/
def given (t : Template) (props : Props) : Template :=
  ⟨t.design, t.inputs.map fun name port => port.given (props.source? name)⟩

/-- The first name of properties that is no input. -/
def undeclared? (t : Template) (props : Props) : Option String :=
  (props.map Prod.fst).find? (· ∉ t.inputs.keys)

/-- An instance of the template as it is, which is then wired in order. -/
def instantiateThenWire (t : Template) (props : Props) : Build NodeId := do
  let id ← t.instantiate
  props.forM fun (name, source) => Build.setInput id name source
  return id

variable {t t' : Template} {props : Props}

theorem keys_input {name : String} {port : Port NodeId} (hport : t.inputs.get? name = some port)
    (port' : Port NodeId) : (t.input name port').inputs.keys = t.inputs.keys := by
  rw [input, Table.keys_insert, if_pos (Table.mem_keys_of_get? hport)]

theorem undeclared?_eq_none_iff :
    t.undeclared? props = none ↔ ∀ name ∈ props.map Prod.fst, name ∈ t.inputs.keys := by
  simp only [undeclared?, List.find?_eq_none, decide_eq_true_eq, not_not]

/-! ## Properties in closed form -/

theorem withProps_eq_given (h : t.withProps props = .ok t') : t' = t.given props := by
  obtain ⟨design, inputs⟩ := t'
  obtain rfl : design = t.design := design_withProps h
  refine congrArg (Node.mk t.design) (Table.ext_get? ?_ fun name hm => ?_)
  · rw [Table.keys_map]
    exact keys_withProps h
  · rw [Table.keys_map, ← Table.contains_eq_true_iff] at hm
    obtain ⟨port, hport⟩ := Option.isSome_iff_exists.1 hm
    rw [Table.get?_map, hport]
    exact get?_withProps h name port hport

theorem withProps_eq_error_iff : ∀ {props : Props} {t : Template} {e : NodeError},
    t.withProps props = .error e ↔
      ∃ name, t.undeclared? props = some name ∧ e = .unknownProperty t.name name
  | [], _, _ => iff_of_false nofun nofun
  | (name, source) :: props, t, e => by
    rw [withProps, undeclared?, List.map_cons]
    rcases hport : t.inputs.get? name with _ | port
    · have hname : name ∉ t.inputs.keys := (t.inputs.get?_eq_none_iff name).1 hport
      rw [List.find?_cons_of_pos (by exact decide_eq_true hname)]
      simp only [Except.error.injEq, Option.some.injEq, exists_eq_left']
      exact eq_comm
    · have hname : name ∈ t.inputs.keys := Table.mem_keys_of_get? hport
      rw [List.find?_cons_of_neg (by simpa using hname)]
      refine (withProps_eq_error_iff (t := t.input name (port.wired source))).trans ?_
      rw [undeclared?, keys_input hport]
      rfl

/-- Properties are given exactly if all their names are inputs. -/
theorem withProps_eq_ok_iff :
    t.withProps props = .ok t' ↔ t.undeclared? props = none ∧ t' = t.given props := by
  rcases hprops : t.withProps props with e | t''
  · obtain ⟨name, hname, -⟩ := withProps_eq_error_iff.1 hprops
    rw [hname]
    exact iff_of_false nofun nofun
  · have hnone : t.undeclared? props = none := by
      rcases hname : t.undeclared? props with _ | name
      · rfl
      · rw [withProps_eq_error_iff.2 ⟨name, hname, rfl⟩] at hprops
        cases hprops
    rw [withProps_eq_given hprops, Except.ok.injEq, eq_comm]
    exact (and_iff_right hnone).symm

theorem mem_inputs_given {name : String} {port : Port NodeId} :
    (name, port) ∈ (t.given props).inputs.entries ↔
      ∃ port', (name, port') ∈ t.inputs.entries ∧ port = port'.given (props.source? name) := by
  simp only [given, Table.entries_map, List.mem_map, Prod.mk.injEq, Prod.exists]
  constructor
  · rintro ⟨_, port', hm, rfl, rfl⟩
    exact ⟨port', hm, rfl⟩
  · rintro ⟨port', hm, rfl⟩
    exact ⟨name, port', hm, rfl, rfl⟩

theorem check_eq_ok_iff {s : Store} : t.check s = .ok () ↔
    ∀ name port, (name, port) ∈ t.inputs.entries → port.validate s.design = .ok () := by
  simp only [check, forM_eq_ok_iff, mapError_eq_ok_iff, Prod.forall]

/-- The check of the ports never finds an unknown property. -/
theorem check_ne_unknownProperty {s : Store} (node name : String) :
    t.check s ≠ .error (.unknownProperty node name) := by
  have hfault : OnlyFails (fun e => ∃ name fault, e = .fault t.name name fault) (t.check s) := by
    refine .forM fun entry _ e h => ?_
    change (entry.2.validate s.design).mapError _ = _ at h
    rcases hv : entry.2.validate s.design with fault | u <;> rw [hv] at h <;> cases h
    exact ⟨_, _, rfl⟩
  intro h
  obtain ⟨_, _, he⟩ := hfault _ h
  cases he

/-! ## Wiring in closed form -/

/-- The template has an input of a name, and a source fits it. -/
def Accepts (t : Template) (design : NodeId → Design) (name : String)
    (source : Source NodeId) : Prop :=
  ∃ port, t.inputs.get? name = some port ∧ (port.wired source).validate design = .ok ()

/-- What an input accepts does not depend on the source that it has. -/
theorem accepts_input_iff {design : NodeId → Design} {name : String} {port : Port NodeId}
    (hport : t.inputs.get? name = some port) {source : Source NodeId} {other : String}
    {source' : Source NodeId} :
    (t.input name (port.wired source)).Accepts design other source' ↔
      t.Accepts design other source' := by
  rw [Accepts, Accepts, input, Table.get?_insert]
  split_ifs with h
  · subst h
    simp only [hport, Option.some.injEq, exists_eq_left']
    rfl
  · rfl

/-- Wiring one input of a new instance is adding an instance that has it wired. -/
theorem returns_setInput_new_iff {s : Store} {notices : List Notice} {name : String}
    {source : Source NodeId} {u : Unit} {w' : Workspace} :
    (Build.setInput ⟨s.size⟩ name source).Returns ⟨(s.add ⟨t, none⟩).2, notices⟩ u w' ↔
      ∃ port, t.inputs.get? name = some port ∧
        (port.wired source).validate (s.add ⟨t, none⟩).2.design = .ok () ∧
        w' = ⟨(s.add ⟨t.input name (port.wired source), none⟩).2, notices⟩ := by
  have hself := s.get_add_self ⟨t, none⟩
  have howner : (s.add ⟨t, none⟩).2.owner ⟨s.size⟩ = ⟨s.size⟩ :=
    Store.owner_of_none (by rw [hself])
  have hset : ∀ i, (s.add ⟨t, none⟩).2.set ⟨s.size⟩ i = (s.add i).2 := by
    intro i
    simp [Store.set, Store.add, Store.size, ← Array.toList_inj]
  rw [Build.returns_setInput_iff howner]
  simp only [hself, hset]
  rfl

theorem design_add_input {s : Store} {name : String} {port : Port NodeId} :
    (s.add ⟨t.input name port, none⟩).2.design = (s.add ⟨t, none⟩).2.design := by
  funext id
  by_cases hid : id = ⟨s.size⟩
  · rw [hid, Store.design, Store.design, s.get_add_self, s.get_add_self]
    rfl
  · have hne : id.index ≠ s.instances.size := fun h => hid (congrArg NodeId.mk h)
    simp only [Store.design, Store.get, Store.add, Array.getD_eq_getD_getElem?, Array.getElem?_push,
      hne, if_false]

/-- Wiring a new instance succeeds exactly if every name is an input that its source fits, and
leaves an instance of the template with properties behind. -/
theorem returns_wiring_iff : ∀ {props : Props} {t : Template} {s : Store} {notices : List Notice}
    {u : Unit} {w' : Workspace},
    (props.forM fun (name, source) => Build.setInput ⟨s.size⟩ name source).Returns
        ⟨(s.add ⟨t, none⟩).2, notices⟩ u w' ↔
      (∀ name source, (name, source) ∈ props →
        t.Accepts (s.add ⟨t, none⟩).2.design name source) ∧
      ∃ t', t.withProps props = .ok t' ∧ w' = ⟨(s.add ⟨t', none⟩).2, notices⟩
  | [], t, s, notices, u, w' => by
    rw [withProps]
    simp
  | (name, source) :: props, t, s, notices, u, w' => by
    change (Build.setInput ⟨s.size⟩ name source >>= fun _ =>
      props.forM fun (name, source) => Build.setInput ⟨s.size⟩ name source).Returns _ u w' ↔ _
    simp only [Build.returns_bind_iff, returns_setInput_new_iff, withProps_cons_eq_ok_iff,
      List.mem_cons]
    constructor
    · rintro ⟨_, _, ⟨port, hport, hvalid, rfl⟩, hrest⟩
      obtain ⟨haccepts, t', hprops, rfl⟩ := returns_wiring_iff.1 hrest
      refine ⟨fun other source' hm => ?_, t', ⟨port, hport, hprops⟩, rfl⟩
      rcases hm with hm | hm
      · cases hm
        exact ⟨port, hport, hvalid⟩
      · have haccept := haccepts other source' hm
        rwa [accepts_input_iff hport, design_add_input] at haccept
    · rintro ⟨haccepts, t', ⟨port, hport, hprops⟩, rfl⟩
      obtain ⟨port', hport', hvalid⟩ := haccepts name source (.inl rfl)
      obtain rfl : port = port' := Option.some.inj (hport.symm.trans hport')
      refine ⟨(), _, ⟨port, hport, hvalid, rfl⟩, returns_wiring_iff.2
        ⟨fun other source' hm => ?_, t', hprops, rfl⟩⟩
      rw [accepts_input_iff hport, design_add_input]
      exact haccepts other source' (.inr hm)

theorem returns_instantiateThenWire_iff {w w' : Workspace} {id : NodeId} :
    (t.instantiateThenWire props).Returns w id w' ↔
      (∀ name source, (name, source) ∈ props →
        t.Accepts (w.store.add ⟨t, none⟩).2.design name source) ∧
      (∃ t', t.withProps props = .ok t' ∧ w' = ⟨(w.store.add ⟨t', none⟩).2, w.notices⟩) ∧
      id = ⟨w.store.size⟩ := by
  simp only [instantiateThenWire, instantiate, Build.returns_bind_iff, Build.returns_add_iff,
    Build.returns_pure_iff]
  constructor
  · rintro ⟨_, _, ⟨rfl, rfl⟩, u, _, hwiring, rfl, rfl⟩
    obtain ⟨haccepts, hprops⟩ := returns_wiring_iff.1 hwiring
    exact ⟨haccepts, hprops, rfl⟩
  · rintro ⟨haccepts, hprops, rfl⟩
    exact ⟨_, _, ⟨rfl, rfl⟩, (), w', returns_wiring_iff.2 ⟨haccepts, hprops⟩, rfl, rfl⟩

end Node

/-! ## Agreement -/

/-- The properties read no instance that is not there yet. -/
def Props.Held (props : Props) (s : Store) : Prop :=
  ∀ name producer output, (name, .edge producer output) ∈ props → s.Holds producer

theorem Store.design_add {s : Store} {id : NodeId} (h : s.Holds id) (i : Instance) :
    (s.add i).2.design id = s.design id := by
  rw [design, get_add h, design]

namespace Node

variable {t : Template} {props : Props} {w w' : Workspace} {id : NodeId}

theorem get_of_returns_instantiateWith (h : (t.instantiateWith props).Returns w id w') :
    w'.store.get id = ⟨t.given props, none⟩ := by
  obtain ⟨t', hprops, -, rfl, rfl⟩ := returns_instantiateWith_iff.1 h
  rw [Store.get_add_self, withProps_eq_given hprops]

theorem get_of_returns_instantiateThenWire (h : (t.instantiateThenWire props).Returns w id w') :
    w'.store.get id = ⟨t.given props, none⟩ := by
  obtain ⟨-, ⟨t', hprops, rfl⟩, rfl⟩ := returns_instantiateThenWire_iff.1 h
  rw [Store.get_add_self, withProps_eq_given hprops]

/-- What can be wired afterwards can be given as properties, if the other inputs are valid. -/
theorem instantiateWith_of_wired (h : (t.instantiateThenWire props).Returns w id w')
    (hheld : props.Held w.store)
    (hothers : ∀ name port, (name, port) ∈ t.inputs.entries → name ∉ props.map Prod.fst →
      port.validate w.store.design = .ok ()) : (t.instantiateWith props).Returns w id w' := by
  obtain ⟨haccepts, ⟨t', hprops, rfl⟩, rfl⟩ := returns_instantiateThenWire_iff.1 h
  obtain rfl := withProps_eq_given hprops
  refine returns_instantiateWith_iff.2
    ⟨_, hprops, check_eq_ok_iff.2 fun name port hm => ?_, rfl, rfl⟩
  obtain ⟨declared, hdeclared, rfl⟩ := mem_inputs_given.1 hm
  rcases hsource : props.source? name with _ | source
  · exact hothers name declared hdeclared (Props.source?_eq_none_iff.1 hsource)
  · have hsource := Props.mem_of_source? hsource
    obtain ⟨port, hport, hvalid⟩ := haccepts name source hsource
    obtain rfl : declared = port :=
      Option.some.inj (((Table.get?_eq_some_iff _ _ _).2 hdeclared).symm.trans hport)
    rw [← hvalid]
    refine Port.validate_congr _ fun producer output he => (Store.design_add ?_ _).symm
    obtain rfl : source = .edge producer output :=
      Option.some.inj ((Port.edge?_eq_some_iff _ _ _).1 he)
    exact hheld name producer output hsource

/-- What can be given as properties with distinct names can be wired afterwards, in any order. -/
theorem wired_of_instantiateWith (h : (t.instantiateWith props).Returns w id w')
    (hnodup : (props.map Prod.fst).Nodup) {props' : Props} (hperm : props'.Perm props) :
    (t.instantiateThenWire props').Returns w id w' := by
  obtain ⟨t', hprops, hcheck, rfl, rfl⟩ := returns_instantiateWith_iff.1 h
  obtain ⟨hdeclared, rfl⟩ := withProps_eq_ok_iff.1 hprops
  have hgiven : t.given props' = t.given props := by
    simp only [given, Props.source?_perm hperm hnodup]
  have hdeclared' : t.undeclared? props' = none := by
    rw [undeclared?_eq_none_iff] at hdeclared ⊢
    exact fun name hm => hdeclared name ((hperm.map _).mem_iff.1 hm)
  refine returns_instantiateThenWire_iff.2 ⟨fun name source hm => ?_,
    ⟨_, withProps_eq_ok_iff.2 ⟨hdeclared', rfl⟩, by rw [hgiven]⟩, rfl⟩
  have hm := hperm.mem_iff.1 hm
  have hname := undeclared?_eq_none_iff.1 hdeclared name (List.mem_map_of_mem hm)
  rw [← Table.contains_eq_true_iff] at hname
  obtain ⟨port, hport⟩ := Option.isSome_iff_exists.1 hname
  have hchecked := check_eq_ok_iff.1 hcheck name (port.wired source) <| mem_inputs_given.2
    ⟨port, (Table.get?_eq_some_iff _ _ _).1 hport,
      by rw [(Props.source?_eq_some_iff hnodup).2 hm, Port.given]⟩
  exact ⟨port, hport, (port.wired source).sound_iff _ |>.1 <| Store.sound_of_design_eq
    (fun _ hid => Store.design_add hid _) (((port.wired source).sound_iff _).2 hchecked)⟩

/-- Properties fail as unknown for the first name that is no input, whatever the sources are. -/
theorem fails_unknownProperty_iff {node name : String} :
    (t.instantiateWith props).Fails w (.unknownProperty node name) ↔
      node = t.name ∧ t.undeclared? props = some name := by
  have hadd : ∀ t' : Template, ¬ t'.instantiate.Fails w (.unknownProperty node name) :=
    fun _ => nofun
  simp only [instantiateWith, Build.fails_liftM_bind_iff, Build.fails_store_bind_iff, hadd,
    check_ne_unknownProperty, and_false, exists_false, or_false,
    withProps_eq_error_iff, NodeError.unknownProperty.injEq]
  constructor
  · rintro ⟨_, hname, rfl, rfl⟩
    exact ⟨rfl, hname⟩
  · rintro ⟨rfl, hname⟩
    exact ⟨name, hname, rfl, rfl⟩

/-- Giving properties and wiring afterwards lead to one instance, whose inputs have the last sources
that the properties give them. Whatever can be wired in order can be given, if the inputs that are
not named are valid and no source is the new instance itself; whatever can be given under distinct
names can be wired in any order. Only a name that is no input is an unknown property, and the first
one is reported. -/
theorem instantiateWith_agrees (t : Template) (props : Props) (w : Workspace) :
    (∀ id w', (t.instantiateThenWire props).Returns w id w' → props.Held w.store →
      (∀ name port, (name, port) ∈ t.inputs.entries → name ∉ props.map Prod.fst →
        port.validate w.store.design = .ok ()) →
      (t.instantiateWith props).Returns w id w') ∧
    (∀ id w', (t.instantiateWith props).Returns w id w' → (props.map Prod.fst).Nodup →
      ∀ props', props'.Perm props → (t.instantiateThenWire props').Returns w id w') ∧
    (∀ id w', (t.instantiateThenWire props).Returns w id w' ∨
      (t.instantiateWith props).Returns w id w' →
        w'.store.get id = ⟨⟨t.design, t.inputs.map fun name port =>
          port.given (props.source? name)⟩, none⟩) ∧
    (∀ node name, (t.instantiateWith props).Fails w (.unknownProperty node name) ↔
      node = t.name ∧ (props.map Prod.fst).find? (· ∉ t.inputs.keys) = some name) ∧
    ((∃ node name, (t.instantiateWith props).Fails w (.unknownProperty node name)) ↔
      ∃ name ∈ props.map Prod.fst, name ∉ t.inputs.keys) := by
  refine ⟨fun _ _ => instantiateWith_of_wired,
    fun _ _ h hnodup _ => wired_of_instantiateWith h hnodup, ?_,
    fun _ _ => fails_unknownProperty_iff, ?_⟩
  · rintro id w' (h | h)
    · exact get_of_returns_instantiateThenWire h
    · exact get_of_returns_instantiateWith h
  · simp only [fails_unknownProperty_iff, exists_and_left, exists_eq_left]
    rw [← Option.isSome_iff_exists, undeclared?, List.find?_isSome]
    simp only [decide_eq_true_eq]

end Node

section Amplifier

/-- A gain whose first value is no number, and a tone. -/
def amplifier : Template :=
  Node.named "Amplifier"
    |>.input "gain" ((Port.ofKind .float).wired (.literal (.float (.nan false))))
    |>.input "tone" ⟨.color, some (.literal (.float (.ofNat 1))), true, false⟩
    |>.output "value" .color "in_tone * in_gain"

/-- The gain is given twice. -/
def louder : Props :=
  [("gain", .literal (.float (.ofNat 2))), ("gain", .literal (.float (.ofNat 3)))]

def tinny : Props := [("gain", .literal (.float (.ofNat 2))), ("tone", .raw "vec3(0.5)")]

theorem instantiateWith_agrees_amplifier :
    (∃ w, (amplifier.instantiateThenWire louder).Returns default ⟨0⟩ w ∧
      (amplifier.instantiateWith louder).Returns default ⟨0⟩ w) ∧
    (∃ w, (amplifier.instantiateWith tinny).Returns default ⟨0⟩ w ∧
      (amplifier.instantiateThenWire tinny.reverse).Returns default ⟨0⟩ w) ∧
    (amplifier.instantiateWith (louder ++ [("pitch", .raw ""), ("time", .raw "")])).Fails default
      (.unknownProperty "Amplifier" "pitch") := by
  obtain ⟨hgiven, -⟩ := Node.instantiateWith_agrees amplifier louder default
  obtain ⟨-, hwired, -⟩ := Node.instantiateWith_agrees amplifier tinny default
  obtain ⟨-, -, -, hunknown, -⟩ := Node.instantiateWith_agrees amplifier
    (louder ++ [("pitch", .raw ""), ("time", .raw "")]) default
  have hlouder : ((amplifier.instantiateThenWire louder).run.run default).1 = .ok ⟨0⟩ := by
    decide +kernel
  have htinny : ((amplifier.instantiateWith tinny).run.run default).1 = .ok ⟨0⟩ := by
    decide +kernel
  have hlouder := Build.returns_of_run hlouder
  have htinny := Build.returns_of_run htinny
  have hheld : louder.Held (default : Workspace).store := by
    rintro name producer output hm
    simp [louder] at hm
  have hothers : amplifier.inputs.entries.all (fun entry => entry.1 ∈ louder.map Prod.fst ||
      entry.2.validate (default : Workspace).store.design = .ok ()) = true := by decide +kernel
  refine ⟨⟨_, hlouder, hgiven _ _ hlouder hheld fun name port hm hname => ?_⟩,
    ⟨_, htinny, hwired _ _ htinny (by decide) _ (List.reverse_perm _)⟩,
    (hunknown _ _).2 ⟨rfl, by decide⟩⟩
  have hentry := List.all_eq_true.1 hothers (name, port) hm
  rw [Bool.or_eq_true, decide_eq_true_eq, decide_eq_true_eq] at hentry
  exact hentry.resolve_left hname

end Amplifier

end ShaderGraph
