import ShaderGraph.Proofs.Rewiring

/-!
# What building does

How a program runs in a workspace: it returns a value (`Build.Returns`) or fails
(`Build.Fails`), and each step of it is described by what it needs and what it leaves behind. A
template with properties becomes an instance whose inputs read the last property of their name
(`Node.get?_withProps`).
-/

namespace ShaderGraph

namespace Build

variable {α β : Type}

/-- The program returns a value and leaves a workspace behind. -/
def Returns (b : Build α) (w : Workspace) (a : α) (w' : Workspace) : Prop :=
  b.run.run w = (.ok a, w')

/-- The program gives up with an error. -/
def Fails (b : Build α) (w : Workspace) (e : NodeError) : Prop := (b.run.run w).1 = .error e

variable {b : Build α} {w w' : Workspace} {a : α} {e : NodeError}

theorem Returns.not_fails (h : b.Returns w a w') : ¬ b.Fails w e := by
  unfold Fails
  rw [h]
  exact nofun

theorem returns_bind_iff {f : α → Build β} {c : β} :
    (b >>= f).Returns w c w' ↔ ∃ a v, b.Returns w a v ∧ (f a).Returns v c w' := by
  unfold Returns
  rcases h : b.run.run w with ⟨e | a, v⟩
  · simp only [ExceptT.run_bind, StateT.run_bind, h]
    refine iff_of_false (fun hp => ?_) fun ⟨_, _, hp, _⟩ => ?_
    · cases hp
    · cases hp
  · simp only [ExceptT.run_bind, StateT.run_bind, h]
    refine ⟨fun hp => ⟨a, v, rfl, hp⟩, ?_⟩
    rintro ⟨_, _, hp, hf⟩
    cases hp
    exact hf

theorem fails_bind_iff {f : α → Build β} :
    (b >>= f).Fails w e ↔ b.Fails w e ∨ ∃ a v, b.Returns w a v ∧ (f a).Fails v e := by
  unfold Returns Fails
  rcases h : b.run.run w with ⟨e' | a, v⟩
  · simp only [ExceptT.run_bind, StateT.run_bind, h]
    change (Except.error e' : Except NodeError β) = Except.error e ↔ _
    refine ⟨fun hp => .inl (congrArg Except.error (Except.error.inj hp)), ?_⟩
    rintro (hp | ⟨_, _, hp, -⟩)
    · exact congrArg Except.error (Except.error.inj hp)
    · cases hp
  · simp only [ExceptT.run_bind, StateT.run_bind, h]
    refine ⟨fun hp => .inr ⟨a, v, rfl, hp⟩, ?_⟩
    rintro (hp | ⟨_, _, hp, hf⟩)
    · cases hp
    · cases hp
      exact hf

/-! ### Steps -/

@[simp] theorem returns_pure_iff {c : α} : (pure c : Build α).Returns w a w' ↔ a = c ∧ w' = w := by
  change (Except.ok c, w) = (Except.ok a, w') ↔ _
  simp only [Prod.mk.injEq, Except.ok.injEq, eq_comm]

@[simp] theorem not_returns_throw : ¬ (throw e : Build α).Returns w a w' := nofun

@[simp] theorem fails_throw_iff {e' : NodeError} : (throw e' : Build α).Fails w e ↔ e = e' := by
  change Except.error e' = Except.error e ↔ _
  rw [Except.error.injEq, eq_comm]

theorem returns_add_iff {i : Instance} {id : NodeId} : (add i).Returns w id w' ↔
    id = ⟨w.store.size⟩ ∧ w' = ⟨(w.store.add i).2, w.notices⟩ := by
  change (Except.ok ⟨w.store.size⟩, Workspace.mk (w.store.add i).2 w.notices) =
    (Except.ok id, w') ↔ _
  simp only [Prod.mk.injEq, Except.ok.injEq, eq_comm]

variable {c : β}

@[simp] theorem returns_store_bind_iff {f : Store → Build β} :
    (Build.store >>= f).Returns w c w' ↔ (f w.store).Returns w c w' := Iff.rfl

@[simp] theorem returns_notify_bind_iff {notice : Notice} {f : Unit → Build β} :
    (notify notice >>= f).Returns w c w' ↔
      (f ()).Returns ⟨w.store, w.notices ++ [notice]⟩ c w' := Iff.rfl

@[simp] theorem returns_liftM_bind_iff {x : Except NodeError α} {f : α → Build β} :
    ((liftM x : Build α) >>= f).Returns w c w' ↔ ∃ a, x = .ok a ∧ (f a).Returns w c w' := by
  rcases x with e | a
  · exact iff_of_false nofun nofun
  · simp only [Except.ok.injEq, exists_eq_left']
    exact Iff.rfl

theorem fails_store_bind_iff {f : Store → Build β} :
    (Build.store >>= f).Fails w e ↔ (f w.store).Fails w e := Iff.rfl

theorem fails_liftM_bind_iff {x : Except NodeError α} {f : α → Build β} :
    ((liftM x : Build α) >>= f).Fails w e ↔ x = .error e ∨ ∃ a, x = .ok a ∧ (f a).Fails w e := by
  rcases x with e' | a
  · simp only [Except.error.injEq, reduceCtorEq, false_and, exists_false, or_false]
    exact fails_throw_iff.trans eq_comm
  · simp only [reduceCtorEq, Except.ok.injEq, exists_eq_left', false_or]
    exact Iff.rfl

end Build

/-! ## Wiring -/

namespace Store

variable {s : Store} {id : NodeId}

theorem size_add (s : Store) (i : Instance) : (s.add i).2.size = s.size + 1 := by
  simp [add, size]

theorem size_set (s : Store) (id : NodeId) (i : Instance) : (s.set id i).size = s.size := by
  simp [set, size]

theorem get_add_self (s : Store) (i : Instance) : (s.add i).2.get ⟨s.size⟩ = i := by
  simp [get, add, size, Array.getD_eq_getD_getElem?]

theorem owner_of_none (h : (s.get id).delegate = none) : s.owner id = id := by
  rw [owner, h]

theorem owner_of_some {other : NodeId} (h : (s.get id).delegate = some other)
    (hlt : other.index < id.index) : s.owner id = s.owner other := by
  rw [owner, h]
  exact if_pos hlt

end Store

/-- The instance with a port in place of the one of its name. -/
def Instance.wired (n : Instance) (name : String) (port : Port NodeId) : Instance :=
  { n with inputs := n.inputs.insert name port }

/-- An input is wired, at the owner of the instance, if it exists and the source fits it. -/
theorem Build.returns_setInput_iff {w w' : Workspace} {id owner : NodeId}
    (howner : w.store.owner id = owner) {name : String} {source : Source NodeId} {u : Unit} :
    (setInput id name source).Returns w u w' ↔ ∃ port,
      (w.store.get owner).inputs.get? name = some port ∧
      (port.wired source).validate w.store.design = .ok () ∧
      w' = ⟨w.store.set owner ((w.store.get owner).wired name (port.wired source)),
        w.notices⟩ := by
  change ((liftM (w.store.setInput id name source) : Build Store) >>= setStore).Returns w u w' ↔ _
  have hset : ∀ s, (setStore s).Returns w u w' ↔ w' = ⟨s, w.notices⟩ := by
    intro s
    change (Except.ok (), Workspace.mk s w.notices) = (Except.ok u, w') ↔ _
    simp only [Prod.mk.injEq, true_and, eq_comm]
  simp only [returns_liftM_bind_iff, hset, Store.setInput_eq_ok_iff, howner]
  constructor
  · rintro ⟨_, ⟨port, hport, hvalid, rfl⟩, rfl⟩
    exact ⟨port, hport, hvalid, rfl⟩
  · rintro ⟨port, hport, hvalid, rfl⟩
    exact ⟨_, ⟨port, hport, hvalid, rfl⟩, rfl⟩

/-- An edge to an output fits a port that takes values of the kind of the output. -/
theorem Port.validate_edge {ρ : Type} {design : ρ → Design} {p : Port ρ} {producer : ρ}
    {output : String} {spec : Output} (hspec : (design producer).outputs.get? output = some spec)
    (haccepts : p.kind.accepts spec.kind p.broadcast = true) :
    (p.wired (.edge producer output)).validate design = .ok () := by
  simp only [validate, wired, Design.outputKind_eq_ok _ hspec]
  exact (accept_eq_ok_iff _ _).2 haccepts

namespace Table

variable {α : Type}

theorem entries_eq_filterMap (t : Table α) :
    t.entries = t.keys.filterMap fun key => (t.get? key).map (key, ·) := by
  have hentry : ∀ entry ∈ t.entries,
      (t.get? entry.1).map (entry.1, ·) = some entry := fun entry hm => by
    rw [(t.get?_eq_some_iff entry.1 entry.2).2 hm]
    rfl
  rw [keys, List.filterMap_map]
  exact (List.filterMap_some.symm.trans (List.filterMap_congr hentry).symm)

theorem ext_entries {t t' : Table α} (h : t.entries = t'.entries) : t = t' := by
  obtain ⟨l, hl⟩ := t
  obtain ⟨l', hl'⟩ := t'
  cases h
  rfl

/-- A table is known by its names, in their order, and what they stand for. -/
theorem ext_get? {t t' : Table α} (hkeys : t.keys = t'.keys)
    (hget : ∀ key ∈ t'.keys, t.get? key = t'.get? key) : t = t' := by
  refine ext_entries ?_
  rw [t.entries_eq_filterMap, t'.entries_eq_filterMap, hkeys]
  exact List.filterMap_congr fun key hm => by rw [hget key hm]

end Table

/-! ## Properties -/

/-- The source that properties give an input, the last one of its name. -/
def Props.source? (props : Props) (name : String) : Option (Source NodeId) :=
  (props.reverse.find? (·.1 = name)).map Prod.snd

/-- The port with a source in place of its own, if there is one. -/
def Port.given {ρ : Type} (p : Port ρ) : Option (Source ρ) → Port ρ
  | none => p
  | some source => p.wired source

theorem Props.source?_cons (name : String) (source : Source NodeId) (props : Props)
    (other : String) : Props.source? ((name, source) :: props) other =
      (Props.source? props other).or (if name = other then some source else none) := by
  simp only [Props.source?, List.reverse_cons, List.find?_append, Option.map_or]
  congr 1
  by_cases h : name = other <;> simp [h]

namespace Node

variable {t t' : Template}

theorem withProps_cons_eq_ok_iff {name : String} {source : Source NodeId} {props : Props} :
    t.withProps ((name, source) :: props) = .ok t' ↔ ∃ port, t.inputs.get? name = some port ∧
      (t.input name (port.wired source)).withProps props = .ok t' := by
  rw [withProps]
  rcases t.inputs.get? name with _ | port <;> simp

theorem design_withProps : ∀ {props : Props} {t : Template}, t.withProps props = .ok t' →
    t'.design = t.design
  | [], t, h => by
    cases h
    rfl
  | (name, source) :: props, t, h => by
    obtain ⟨port, -, hrest⟩ := withProps_cons_eq_ok_iff.1 h
    exact (design_withProps hrest).trans rfl

theorem keys_withProps : ∀ {props : Props} {t : Template}, t.withProps props = .ok t' →
    t'.inputs.keys = t.inputs.keys
  | [], t, h => by
    cases h
    rfl
  | (name, source) :: props, t, h => by
    obtain ⟨port, hport, hrest⟩ := withProps_cons_eq_ok_iff.1 h
    rw [keys_withProps hrest, input, Table.keys_insert, if_pos (Table.mem_keys_of_get? hport)]

/-- Every input has its declared port, with the last source that the properties give it. -/
theorem get?_withProps : ∀ {props : Props} {t : Template}, t.withProps props = .ok t' →
    ∀ name port, t.inputs.get? name = some port →
      t'.inputs.get? name = some (port.given (Props.source? props name))
  | [], t, h, name, port, hp => by
    cases h
    exact hp
  | (other, source) :: props, t, h, name, port, hp => by
    obtain ⟨port', hport', hrest⟩ := withProps_cons_eq_ok_iff.1 h
    have hinput := Table.get?_insert t.inputs other name (port'.wired source)
    rw [Props.source?_cons]
    by_cases hn : other = name
    · rw [if_pos hn] at hinput ⊢
      rw [get?_withProps hrest name _ hinput]
      rw [hn, hp] at hport'
      cases hport'
      rcases Props.source? props name with _ | last <;> rfl
    · rw [if_neg hn, hp] at hinput
      rw [if_neg hn, Option.or_none]
      exact get?_withProps hrest name port hinput

theorem returns_instantiateWith_iff {props : Props} {w w' : Workspace} {id : NodeId} :
    (t.instantiateWith props).Returns w id w' ↔ ∃ t', t.withProps props = .ok t' ∧
      t'.check w.store = .ok () ∧ id = ⟨w.store.size⟩ ∧
      w' = ⟨(w.store.add ⟨t', none⟩).2, w.notices⟩ := by
  simp only [instantiateWith, instantiate, Build.returns_liftM_bind_iff,
    Build.returns_store_bind_iff, Build.returns_add_iff]
  exact exists_congr fun _ => and_congr_right fun _ => ⟨fun ⟨(), h⟩ => h, fun h => ⟨(), h⟩⟩

/-- An instance whose ports do not pass the check is not made. -/
theorem fails_instantiateWith {props : Props} {w : Workspace} {e : NodeError}
    (hprops : t.withProps props = .ok t') (hcheck : t'.check w.store = .error e) :
    (t.instantiateWith props).Fails w e := by
  simp only [instantiateWith, Build.fails_liftM_bind_iff, Build.fails_store_bind_iff, hprops,
    hcheck, Except.ok.injEq, exists_eq_left', true_or, or_true]

end Node

end ShaderGraph
