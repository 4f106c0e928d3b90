import ShaderGraph.Library.Masters
import ShaderGraph.Proofs.Compiles

/-!
# Wiring keeps ports sound

Whatever is built, wired or assembled, and whether it fails half way or not, instances keep their
designs and the declarations of their ports, and a port that is sound stays sound
(`Workspace.Evolves.keeps`). So a graph whose nodes had sound ports once never fails to compile for
a source that does not fit (`ports_stay_sound`).
-/

namespace ShaderGraph

/-! ## Sound ports -/

namespace Port

variable {ρ : Type}

/-- The port has no source, or one that passes the check. -/
def Sound (design : ρ → Design) (p : Port ρ) : Prop :=
  p.source = none ∨ p.validate design = .ok ()

theorem sound_iff (design : ρ → Design) (p : Port ρ) :
    p.Sound design ↔ p.validate design = .ok () := by
  refine ⟨?_, .inr⟩
  rintro (h | h)
  · rw [validate, h]
  · exact h

/-- A producer that a sound port reads has an output. -/
theorem Sound.exists_output {design : ρ → Design} {p : Port ρ} (h : p.Sound design)
    {producer : ρ} {output : String} (he : p.edge? = some (producer, output)) :
    ∃ spec, (design producer).outputs.get? output = some spec := by
  have hs := (p.edge?_eq_some_iff _ _).1 he
  have hfits : p.Fits design := .inl ⟨by rw [hs]; rfl, (p.sound_iff design).1 h⟩
  obtain ⟨spec, hspec, -⟩ := hfits.edge he
  exact ⟨spec, hspec⟩

end Port

namespace Store

def Holds (s : Store) (id : NodeId) : Prop := id.index < s.size

variable {s s' : Store}

theorem get_of_not_holds {id : NodeId} (h : ¬ s.Holds id) : s.get id = default := by
  rw [get, Array.getD_eq_getD_getElem?, Array.getElem?_eq_none (Nat.le_of_not_lt h)]
  rfl

theorem holds_of_port {id : NodeId} {name : String} {port : Port NodeId}
    (h : (s.get id).inputs.get? name = some port) : s.Holds id := by
  by_contra hn
  rw [get_of_not_holds hn] at h
  cases h

theorem holds_of_output {id : NodeId} {name : String} {spec : Output}
    (h : (s.design id).outputs.get? name = some spec) : s.Holds id := by
  by_contra hn
  rw [design, get_of_not_holds hn] at h
  cases h

/-- A sound port stays sound as long as the instances that are held keep their designs. -/
theorem sound_of_design_eq (h : ∀ id, s.Holds id → s'.design id = s.design id)
    {p : Port NodeId} (hp : p.Sound s.design) : p.Sound s'.design := by
  rw [Port.sound_iff] at hp ⊢
  rw [← hp]
  refine p.validate_congr fun producer output he => h producer ?_
  obtain ⟨spec, hspec⟩ := ((p.sound_iff _).2 hp).exists_output he
  exact holds_of_output hspec

/-- What calls never change about the instances that are held. -/
structure Keeps (s s' : Store) : Prop where
  size : s.size ≤ s'.size
  design : ∀ id, s.Holds id → s'.design id = s.design id
  delegate : ∀ id, s.Holds id → (s'.get id).delegate = (s.get id).delegate
  /-- The names of the ports and their order. -/
  keys : ∀ id, s.Holds id → (s'.get id).inputs.keys = (s.get id).inputs.keys
  port : ∀ id name p, (s.get id).inputs.get? name = some p →
    ∃ p', (s'.get id).inputs.get? name = some p' ∧ p'.kind = p.kind ∧
      p'.broadcast = p.broadcast ∧ p'.optional = p.optional ∧
      (p.Sound s.design → p'.Sound s'.design)

namespace Keeps

variable {t : Store}

theorem refl (s : Store) : s.Keeps s :=
  ⟨le_refl _, fun _ _ => rfl, fun _ _ => rfl, fun _ _ => rfl,
    fun _ _ p hp => ⟨p, hp, rfl, rfl, rfl, id⟩⟩

theorem holds (h : s.Keeps t) {id : NodeId} (hid : s.Holds id) : t.Holds id :=
  Nat.lt_of_lt_of_le hid h.size

theorem trans (h : s.Keeps t) (h' : t.Keeps s') : s.Keeps s' where
  size := h.size.trans h'.size
  design id hid := (h'.design id (h.holds hid)).trans (h.design id hid)
  delegate id hid := (h'.delegate id (h.holds hid)).trans (h.delegate id hid)
  keys id hid := (h'.keys id (h.holds hid)).trans (h.keys id hid)
  port id name p hp := by
    obtain ⟨q, hq, hkind, hbroadcast, hoptional, hsound⟩ := h.port id name p hp
    obtain ⟨r, hr, hkind', hbroadcast', hoptional', hsound'⟩ := h'.port id name q hq
    exact ⟨r, hr, hkind'.trans hkind, hbroadcast'.trans hbroadcast, hoptional'.trans hoptional,
      hsound' ∘ hsound⟩

end Keeps

/-! ## Adding and wiring -/

theorem get_add {id : NodeId} (h : s.Holds id) (i : Instance) : (s.add i).2.get id = s.get id := by
  have hne : id.index ≠ s.instances.size := Nat.ne_of_lt h
  simp only [get, add, Array.getD_eq_getD_getElem?, Array.getElem?_push, hne, if_false]

theorem keeps_add (s : Store) (i : Instance) : s.Keeps (s.add i).2 := by
  have hget := fun id (h : s.Holds id) => get_add h i
  have hdesign : ∀ id, s.Holds id → (s.add i).2.design id = s.design id := fun id h => by
    rw [design, hget id h, design]
  refine ⟨?_, hdesign, fun id h => by rw [hget id h], fun id h => by rw [hget id h], ?_⟩
  · simp [add, size]
  · intro id name p hp
    rw [hget id (holds_of_port hp)]
    exact ⟨p, hp, rfl, rfl, rfl, sound_of_design_eq hdesign⟩

theorem get_set {id : NodeId} (h : s.Holds id) (i : Instance) (other : NodeId) :
    (s.set id i).get other = if other = id then i else s.get other := by
  have hlt : id.index < s.instances.size := h
  simp only [get, set, Array.getD_eq_getD_getElem?]
  split_ifs with he
  · rw [he, Array.getElem?_setIfInBounds_self_of_lt hlt, Option.getD_some]
  · have hne : id.index ≠ other.index := fun hi => he (congrArg NodeId.mk hi).symm
    rw [Array.getElem?_setIfInBounds_ne hne]

theorem design_set {id : NodeId} (h : s.Holds id) {i : Instance} (hi : i.design = s.design id)
    (other : NodeId) : (s.set id i).design other = s.design other := by
  rw [design, get_set h, design]
  split_ifs with he
  · rw [he]
    exact hi
  · rfl

/-- An instance may be replaced by one that differs only in what its ports read, if these stay
sound. -/
theorem keeps_set {id : NodeId} (h : s.Holds id) {i : Instance} (hdesign : i.design = s.design id)
    (hdelegate : i.delegate = (s.get id).delegate) (hkeys : i.inputs.keys = (s.get id).inputs.keys)
    (hport : ∀ name p, (s.get id).inputs.get? name = some p →
      ∃ p', i.inputs.get? name = some p' ∧ p'.kind = p.kind ∧ p'.broadcast = p.broadcast ∧
        p'.optional = p.optional ∧ (p.Sound s.design → p'.Sound s.design)) :
    s.Keeps (s.set id i) := by
  have hdesigns := design_set h hdesign
  have hsound : ∀ {p : Port NodeId}, p.Sound s.design → p.Sound (s.set id i).design :=
    fun hp => sound_of_design_eq (fun other _ => hdesigns other) hp
  refine ⟨?_, fun other _ => hdesigns other, fun other _ => ?_, fun other _ => ?_, ?_⟩
  · simp [set, size]
  · rw [get_set h]
    split_ifs with he
    · rw [he, hdelegate]
    · rfl
  · rw [get_set h]
    split_ifs with he
    · rw [he, hkeys]
    · rfl
  · intro other name p hp
    rw [get_set h]
    split_ifs with he
    · obtain ⟨p', hp', hkind, hbroadcast, hoptional, hkept⟩ := hport name p (he ▸ hp)
      exact ⟨p', hp', hkind, hbroadcast, hoptional, hsound ∘ hkept⟩
    · exact ⟨p, hp, rfl, rfl, rfl, hsound⟩

theorem setInput_eq_ok_iff (id : NodeId) (name : String) (source : Source NodeId) :
    s.setInput id name source = .ok s' ↔ ∃ port,
      (s.get (s.owner id)).inputs.get? name = some port ∧
      (port.wired source).validate s.design = .ok () ∧
      s' = s.set (s.owner id) { s.get (s.owner id) with
        inputs := (s.get (s.owner id)).inputs.insert name (port.wired source) } := by
  unfold setInput
  simp only []
  split
  · simp_all
  · rename_i port hp
    simp only [hp, Option.some.injEq, exists_eq_left']
    split
    · simp_all
    · rename_i hv
      simp [hv, eq_comm]

/-- A wiring that succeeds replaces one source by a source that fits. -/
theorem keeps_setInput {id : NodeId} {name : String} {source : Source NodeId}
    (h : s.setInput id name source = .ok s') : s.Keeps s' := by
  obtain ⟨port, hport, hvalid, rfl⟩ := (setInput_eq_ok_iff id name source).1 h
  refine keeps_set (holds_of_port hport) rfl rfl ?_ fun name' p hp => ?_
  · rw [Table.keys_insert, if_pos (Table.mem_keys_of_get? hport)]
  · simp only [Table.get?_insert]
    split_ifs with hn
    · -- this is the port that was wired, after a check against the same designs
      rw [← hn, hport] at hp
      cases hp
      exact ⟨_, rfl, rfl, rfl, rfl, fun _ => .inr hvalid⟩
    · exact ⟨p, hp, rfl, rfl, rfl, fun hp => hp⟩

end Store

/-- A property of stores that neither a further instance, wired by itself, nor a wiring that
succeeds can break. -/
structure Store.Stable (P : Store → Prop) : Prop where
  own : ∀ (s : Store) (t : Template), P s → P (s.add ⟨t, none⟩).2
  wired : ∀ (s t : Store) (id : NodeId) (name : String) (source : Source NodeId), P s →
    s.setInput id name source = .ok t → P t

theorem Store.keeps_stable (s : Store) : Stable s.Keeps where
  own t _ h := h.trans (t.keeps_add _)
  wired _ _ _ _ _ h hset := h.trans (keeps_setInput hset)

/-! ## Programs -/

namespace Build

variable {α β : Type}

/-- The workspace after a program, whether the program fails or not. -/
def after (b : Build α) (w : Workspace) : Workspace := (b.run.run w).2

/-- Programs after which everything is kept. -/
def Keeping (b : Build α) : Prop := ∀ w : Workspace, w.store.Keeps (b.after w).store

theorem after_bind (b : Build α) (f : α → Build β) (w : Workspace) :
    (b >>= f).after w = match (b.run.run w).1 with
      | .ok a => (f a).after (b.after w)
      | .error _ => b.after w := by
  unfold after
  rcases h : b.run.run w with ⟨e | a, w'⟩
  · simp only [ExceptT.run_bind, StateT.run_bind, h]
    rfl
  · simp only [ExceptT.run_bind, StateT.run_bind, h]
    rfl

theorem after_liftM (x : Except NodeError α) (w : Workspace) : (liftM x : Build α).after w = w := by
  rcases x with e | a <;> rfl

theorem after_setInput (id : NodeId) (name : String) (source : Source NodeId) (w : Workspace) :
    ((setInput id name source).after w).store = match w.store.setInput id name source with
      | .ok s => s
      | .error _ => w.store := by
  change (((liftM (w.store.setInput id name source) : Build Store) >>= setStore).after w).store = _
  rcases w.store.setInput id name source with e | s <;> rfl

/-- Programs after which a property of the store still holds, whether they fail or not. -/
def Preserving (P : Store → Prop) (b : Build α) : Prop :=
  ∀ w : Workspace, P w.store → P (b.after w).store

namespace Preserving

variable {P : Store → Prop}

theorem of_store_eq {b : Build α} (h : ∀ w, (b.after w).store = w.store) : b.Preserving P := by
  intro w hw
  rw [h]
  exact hw

theorem bind {b : Build α} {f : α → Build β} (hb : b.Preserving P)
    (hf : ∀ a, (f a).Preserving P) : (b >>= f).Preserving P := by
  intro w hw
  rw [after_bind]
  split
  · exact hf _ _ (hb w hw)
  · exact hb w hw

theorem foldlM {f : β → α → Build β} (hf : ∀ b a, (f b a).Preserving P) :
    ∀ (l : List α) (b : β), (l.foldlM f b).Preserving P
  | [], _ => of_store_eq fun _ => rfl
  | a :: l, b => by
    rw [List.foldlM_cons]
    exact bind (hf b a) fun b' => foldlM hf l b'

theorem ofExcept (x : Except NodeError α) : (liftM x : Build α).Preserving P :=
  of_store_eq fun w => by rw [after_liftM]

variable (hP : Store.Stable P)
include hP

theorem instantiate (t : Template) : t.instantiate.Preserving P :=
  fun w hw => hP.own w.store t hw

theorem instantiateWith (t : Template) (props : Props) :
    (t.instantiateWith props).Preserving P := by
  refine bind (ofExcept _) fun t => bind (of_store_eq fun _ => rfl) fun s => ?_
  exact bind (ofExcept _) fun _ => instantiate hP t

theorem setInput (id : NodeId) (name : String) (source : Source NodeId) :
    (Build.setInput id name source).Preserving P := by
  intro w hw
  rw [after_setInput]
  split
  · exact hP.wired w.store _ id name source hw ‹_›
  · exact hw

/-- Each filter is wired by a call of its own, which is kept if a later one fails. -/
theorem thread (name : String) (previous : NodeId × String) (filter : NodeId) :
    (Stack.thread name previous filter).Preserving P := by
  refine bind (of_store_eq fun _ => rfl) fun s => ?_
  dsimp only
  split
  · split_ifs
    · refine bind (of_store_eq fun _ => rfl) fun _ => bind (setInput hP _ _ _) fun _ => ?_
      split
      · exact of_store_eq fun _ => rfl
      · exact of_store_eq fun _ => rfl
    · refine bind (setInput hP _ _ _) fun _ => ?_
      split
      · exact of_store_eq fun _ => rfl
      · exact of_store_eq fun _ => rfl
  · exact of_store_eq fun _ => rfl

end Preserving

namespace Keeping

/-- A program keeps everything if it preserves what was kept before. -/
theorem of_preserving {b : Build α} (h : ∀ s : Store, b.Preserving s.Keeps) : b.Keeping :=
  fun w => h w.store w (.refl _)

theorem instantiate (t : Template) : t.instantiate.Keeping :=
  of_preserving fun s => .instantiate s.keeps_stable t

theorem instantiateWith (t : Template) (props : Props) : (t.instantiateWith props).Keeping :=
  of_preserving fun s => .instantiateWith s.keeps_stable t props

theorem setInput (id : NodeId) (name : String) (source : Source NodeId) :
    (Build.setInput id name source).Keeping :=
  of_preserving fun s => .setInput s.keeps_stable id name source

theorem assemble (stack : Stack) (props : Props) : (stack.assemble props).Keeping := by
  refine of_preserving fun s => ?_
  refine .bind (.instantiateWith s.keeps_stable _ _) fun head => ?_
  split
  · refine .bind (.foldlM (.thread s.keeps_stable _) _ _) fun last => ?_
    refine .bind (.of_store_eq fun _ => rfl) fun t => .bind (.ofExcept _) fun kind => ?_
    exact fun w hw => hw.trans (w.store.keeps_add _)
  · exact .of_store_eq fun _ => rfl

end Keeping

end Build

/-! ## Histories -/

/-- One workspace comes from another by calls, some of which may have failed. A type is asked for
an instance if what its constructor does consists of calls. -/
inductive Workspace.Evolves : Workspace → Workspace → Prop
  | refl (w : Workspace) : Evolves w w
  | trans {u v w : Workspace} : Evolves u v → Evolves v w → Evolves u w
  | instantiate (t : Template) (w : Workspace) : Evolves w (t.instantiate.after w)
  | instantiateWith (t : Template) (props : Props) (w : Workspace) :
      Evolves w ((t.instantiateWith props).after w)
  | setInput (id : NodeId) (name : String) (source : Source NodeId) (w : Workspace) :
      Evolves w ((Build.setInput id name source).after w)
  | assemble (stack : Stack) (props : Props) (w : Workspace) :
      Evolves w ((stack.assemble props).after w)
  | create (r : Registry) (id : String) (props : Props) (w : Workspace)
      (h : ∀ type, r.types.get? id = some type → Evolves w ((type.make props).after w)) :
      Evolves w ((r.create id props).after w)

namespace Workspace.Evolves

variable {w w' : Workspace}

/-- Calls keep what there is. -/
theorem keeps (h : w.Evolves w') : w.store.Keeps w'.store := by
  induction h with
  | refl w => exact .refl _
  | trans _ _ ih ih' => exact ih.trans ih'
  | instantiate t w => exact Build.Keeping.instantiate t w
  | instantiateWith t props w => exact Build.Keeping.instantiateWith t props w
  | setInput id name source w => exact Build.Keeping.setInput id name source w
  | assemble stack props w => exact Build.Keeping.assemble stack props w
  | create r id props w _ ih =>
    unfold Registry.create
    split
    · exact .refl _
    · exact ih _ ‹_›

variable {α β : Type}

theorem bind {b : Build α} {f : α → Build β} (hb : w.Evolves (b.after w))
    (hf : ∀ a, (b.after w).Evolves ((f a).after (b.after w))) :
    w.Evolves ((b >>= f).after w) := by
  rw [Build.after_bind]
  split
  · exact hb.trans (hf _)
  · exact hb

/-- What a type made of templates does consists of calls if what its builder does consists of
calls. -/
theorem make_ofTemplate {id : String} {template : Build Template}
    (h : w.Evolves (template.after w)) (props : Props) :
    w.Evolves (((NodeType.ofTemplate id template).make props).after w) :=
  bind h fun t => .instantiateWith t props _

end Workspace.Evolves

/-! ## Built-in types -/

namespace Registry

theorem mem_of_get?_foldl {id : String} {type : NodeType} :
    ∀ {types : List NodeType} {r : Registry},
      (types.foldl register r).types.get? id = some type →
        type ∈ types ∨ r.types.get? id = some type
  | [], _, h => .inr h
  | t :: types, r, h => by
    rw [List.foldl_cons] at h
    rcases mem_of_get?_foldl h with hm | hr
    · exact .inl (List.mem_cons_of_mem t hm)
    · rw [register, Table.get?_insert] at hr
      split_ifs at hr
      · cases hr
        exact .inl List.mem_cons_self
      · exact .inr hr

theorem mem_of_get?_ofList {id : String} {type : NodeType} {types : List NodeType}
    (h : (ofList types).types.get? id = some type) : type ∈ types := by
  rcases mem_of_get?_foldl h with hm | hr
  · exact hm
  · cases hr

end Registry

namespace Library

open Workspace

theorem evolves_fresnelTemplate (w : Workspace) : w.Evolves (fresnelTemplate.after w) := by
  refine .bind (.instantiate _ _) fun position => .bind (.instantiate _ _) fun normal => ?_
  exact .refl _

theorem evolves_make {type : NodeType} (h : type ∈ inputTypes ++ mathTypes ++ masterTypes)
    (props : Props) (w : Workspace) : w.Evolves ((type.make props).after w) := by
  have hpure : ∀ (id : String) (t : Template),
      w.Evolves (((NodeType.ofTemplate id (pure t)).make props).after w) :=
    fun id t => Evolves.make_ofTemplate (.refl w) props
  simp only [inputTypes, mathTypes, masterTypes, List.mem_append, List.mem_cons, List.not_mem_nil,
    or_false] at h
  rcases h with (hinput | rfl | rfl | rfl | rfl) | rfl | rfl
  · rcases hinput with rfl | rfl | rfl | rfl | rfl | rfl | rfl | rfl <;> exact hpure _ _
  · exact hpure _ _
  · exact hpure _ _
  · exact hpure _ _
  · exact Evolves.make_ofTemplate (evolves_fresnelTemplate w) props
  · exact hpure _ _
  · exact hpure _ _

/-- The registry of the library can be asked for instances of any type. -/
theorem evolves_create (id : String) (props : Props) (w : Workspace) :
    w.Evolves ((registry.create id props).after w) :=
  .create registry id props w fun _ h => evolves_make (Registry.mem_of_get?_ofList h) props w

end Library

end ShaderGraph
