import ShaderGraph.Proofs.Chaining

/-!
# What wiring an input changes

An instance leaves its wiring to the one at the end of its chain of delegates (`Store.Forwards`).
What no single call breaks holds in whatever way a workspace came about
(`Workspace.Evolves.preserves`). So delegates are older than what delegates to them
(`Workspace.Evolves.founded`), and every chain ends (`Store.forwards_owner`). A call that wires
an input replaces one source at the end of the chain (`Store.Replaces`), and a call that fails
changes nothing (`Build.setInput_exact`).
-/

namespace ShaderGraph

namespace Store

variable {s t u : Store} {id owner : NodeId}

/-! ## Chains of delegates -/

/-- The second instance is at the end of the chain of delegates that starts at the first one. -/
inductive Forwards (s : Store) : NodeId → NodeId → Prop
  | own {id : NodeId} : (s.get id).delegate = none → Forwards s id id
  | delegate {id other owner : NodeId} : (s.get id).delegate = some other →
      Forwards s other owner → Forwards s id owner

theorem Forwards.unique {owner' : NodeId} (h : s.Forwards id owner) (h' : s.Forwards id owner') :
    owner = owner' := by
  induction h with
  | own hnone =>
    cases h' with
    | own => rfl
    | delegate hsome => rw [hnone] at hsome; cases hsome
  | delegate hsome _ ih =>
    cases h' with
    | own hnone => rw [hnone] at hsome; cases hsome
    | delegate hsome' hrest =>
      rw [hsome] at hsome'
      cases hsome'
      exact ih hrest

theorem Forwards.congr (hdelegate : ∀ id, (t.get id).delegate = (s.get id).delegate)
    (h : s.Forwards id owner) : t.Forwards id owner := by
  induction h with
  | own hnone => exact .own ((hdelegate _).trans hnone)
  | delegate hsome _ ih => exact .delegate ((hdelegate _).trans hsome) ih

/-- Delegates are older than what delegates to them. -/
def Founded (s : Store) : Prop :=
  ∀ id other, (s.get id).delegate = some other → other.index < id.index

theorem forwards_owner (hs : s.Founded) (id : NodeId) : s.Forwards id (s.owner id) := by
  induction hn : id.index using Nat.strong_induction_on generalizing id with
  | _ n ih =>
    rcases hdelegate : (s.get id).delegate with _ | other
    · rw [owner_of_none hdelegate]
      exact .own hdelegate
    · have hlt := hs id other hdelegate
      rw [owner_of_some hdelegate hlt]
      exact .delegate hdelegate (ih other.index (hn ▸ hlt) other rfl)

theorem Founded.congr (hs : s.Founded)
    (hdelegate : ∀ id, (t.get id).delegate = (s.get id).delegate) : t.Founded := by
  intro id other h
  rw [hdelegate] at h
  exact hs id other h

/-- What is at an id after an instance was added. -/
theorem get_add_cases (s : Store) (i : Instance) (id : NodeId) :
    s.Holds id ∧ (s.add i).2.get id = s.get id ∨ id = ⟨s.size⟩ ∧ (s.add i).2.get id = i ∨
      (s.add i).2.get id = default := by
  by_cases hheld : s.Holds id
  · exact .inl ⟨hheld, get_add hheld i⟩
  by_cases hself : id = ⟨s.size⟩
  · subst hself
    exact .inr (.inl ⟨rfl, get_add_self s i⟩)
  · refine .inr (.inr (get_of_not_holds fun hlt => hself (congrArg NodeId.mk ?_)))
    unfold Holds at hheld hlt
    rw [size_add] at hlt
    exact Nat.le_antisymm (Nat.le_of_lt_succ hlt) (Nat.le_of_not_lt hheld)

theorem Founded.add (hs : s.Founded) {i : Instance}
    (hi : ∀ other, i.delegate = some other → s.Holds other) : (s.add i).2.Founded := by
  intro id other h
  rcases s.get_add_cases i id with ⟨-, hget⟩ | ⟨rfl, hget⟩ | hget <;> rw [hget] at h
  · exact hs id other h
  · exact hi other h
  · cases h

/-! ## One source -/

/-- One source differs between two stores and nothing else: neither the order of the ports nor
their kinds, neither what the instance is nor any other instance. -/
structure Replaces (before after : Store) (owner : NodeId) (name : String)
    (source : Source NodeId) : Prop where
  size : after.size = before.size
  others : ∀ id, id ≠ owner → after.get id = before.get id
  design : after.design owner = before.design owner
  delegate : (after.get owner).delegate = (before.get owner).delegate
  keys : (after.get owner).inputs.keys = (before.get owner).inputs.keys
  port : ∃ port, (before.get owner).inputs.get? name = some port ∧
    (after.get owner).inputs.get? name = some (port.wired source)
  otherPorts : ∀ other, other ≠ name →
    (after.get owner).inputs.get? other = (before.get owner).inputs.get? other

theorem replaces_set {name : String} {port : Port NodeId} (source : Source NodeId)
    (hport : (s.get owner).inputs.get? name = some port) :
    s.Replaces (s.set owner ((s.get owner).wired name (port.wired source))) owner name source := by
  have hget := get_set (holds_of_port hport) ((s.get owner).wired name (port.wired source))
  have hself := (hget owner).trans (if_pos rfl)
  refine ⟨size_set _ _ _, fun id hne => (hget id).trans (if_neg hne), ?_, ?_, ?_, ?_, ?_⟩
  · rw [Store.design, hself]
    rfl
  · rw [hself]
    rfl
  · rw [hself, Instance.wired, Table.keys_insert, if_pos (Table.mem_keys_of_get? hport)]
  · refine ⟨port, hport, ?_⟩
    rw [hself, Instance.wired, Table.get?_insert, if_pos rfl]
  · intro other hne
    rw [hself, Instance.wired, Table.get?_insert, if_neg hne.symm]

theorem Replaces.delegates {name : String} {source : Source NodeId}
    (h : s.Replaces t owner name source) (id : NodeId) :
    (t.get id).delegate = (s.get id).delegate := by
  by_cases hid : id = owner
  · rw [hid, h.delegate]
  · rw [h.others id hid]

end Store

/-- A call that succeeds replaces one source of the owner. -/
theorem Store.replaces_of_setInput {s t : Store} {id : NodeId} {name : String}
    {source : Source NodeId} (h : s.setInput id name source = .ok t) :
    s.Replaces t (s.owner id) name source := by
  obtain ⟨port, hport, -, rfl⟩ := (setInput_eq_ok_iff id name source).1 h
  exact replaces_set source hport

/-- A stable property of stores that the tail of a stack cannot break either, whose head is there
already. -/
structure Store.Lasting (P : Store → Prop) : Prop extends Store.Stable P where
  tail : ∀ (s : Store) (stack : Stack) (last : NodeId × String) (kind : Kind) (head : NodeId),
    P s → s.Holds head → (s.get head).delegate = none →
      P (s.add ⟨stack.tail last kind, some head⟩).2

theorem Store.founded_lasting : Store.Lasting Store.Founded where
  own _ _ hs := hs.add nofun
  tail _ _ _ _ _ hs hheld _ := hs.add fun _ h => by cases h; exact hheld
  wired _ _ _ _ _ hs h := hs.congr (Store.replaces_of_setInput h).delegates

/-! ## What programs leave behind -/

namespace Build

variable {α β : Type} {w : Workspace}

theorem Returns.after_eq {b : Build α} {a : α} {w' : Workspace} (h : b.Returns w a w') :
    b.after w = w' := congrArg Prod.snd h

theorem Returns.after_bind {b : Build α} {a : α} {v : Workspace} (h : b.Returns w a v)
    (f : α → Build β) : (b >>= f).after w = (f a).after v := by
  have hrun : (b.run.run w).1 = .ok a := congrArg Prod.fst h
  rw [Build.after_bind, hrun, h.after_eq]

theorem Fails.after_bind {b : Build α} {e : NodeError} (h : b.Fails w e) (f : α → Build β) :
    (b >>= f).after w = b.after w := by
  have hrun : (b.run.run w).1 = .error e := h
  rw [Build.after_bind, hrun]

theorem returns_of_run {b : Build α} {a : α} (h : (b.run.run w).1 = .ok a) :
    b.Returns w a (b.after w) := Prod.ext h rfl

/-- What holds after the first program if it fails, and after the second one if the first returns,
holds after both. -/
theorem after_bind_of (P : Workspace → Prop) {b : Build α} {f : α → Build β}
    (hb : P (b.after w)) (hf : ∀ a, b.Returns w a (b.after w) → P ((f a).after (b.after w))) :
    P ((b >>= f).after w) := by
  rw [after_bind]
  split
  · exact hf _ (returns_of_run ‹_›)
  · exact hb

/-- The tail of a stack delegates to the head, which was there before and stays as it was. -/
theorem Preserving.assemble {P : Store → Prop} (hP : Store.Lasting P) (stack : Stack)
    (props : Props) : (stack.assemble props).Preserving P := by
  intro w hw
  have hkept := Preserving.instantiateWith hP.toStable stack.head props w hw
  refine after_bind_of (fun w => P w.store) hkept fun head hhead => ?_
  have hown : ((stack.head.instantiateWith props).after w).store.Holds head ∧
      (((stack.head.instantiateWith props).after w).store.get head).delegate = none := by
    obtain ⟨t, -, -, rfl, hafter⟩ := Node.returns_instantiateWith_iff.1 hhead
    rw [hafter, Store.Holds, Store.size_add, Store.get_add_self]
    exact ⟨Nat.lt_succ_self _, rfl⟩
  generalize (stack.head.instantiateWith props).after w = v at hkept hown
  split
  · rename_i output _
    have hfold := Preserving.foldlM (.thread hP.toStable stack.name) stack.filters (head, output) v
      hkept
    have hkeeps := Preserving.foldlM (.thread v.store.keeps_stable stack.name) stack.filters
      (head, output) v (.refl _)
    refine after_bind_of (fun w => P w.store) hfold fun last _ => ?_
    refine after_bind_of (fun w => P w.store) hfold fun s _ => ?_
    refine after_bind_of (fun w => P w.store) (Preserving.ofExcept _ _ hfold) fun kind _ => ?_
    rw [after_liftM]
    exact hP.tail _ stack last kind head hfold (hkeeps.holds hown.1)
      ((hkeeps.delegate head hown.1).trans hown.2)
  · exact hkept

/-- Programs that keep delegates older than what delegates to them. -/
def Founding (b : Build α) : Prop := ∀ w : Workspace, w.store.Founded → (b.after w).store.Founded

theorem Founding.instantiateWith (t : Template) (props : Props) :
    (t.instantiateWith props).Founding :=
  Preserving.instantiateWith Store.founded_lasting.toStable t props

end Build

/-- What calls cannot break holds of whatever they made of a workspace of which it held. -/
theorem Workspace.Evolves.preserves {P : Store → Prop} (hP : Store.Lasting P) {w w' : Workspace}
    (h : w.Evolves w') (hw : P w.store) : P w'.store := by
  induction h with
  | refl => exact hw
  | trans _ _ ih ih' => exact ih' (ih hw)
  | instantiate t w => exact Build.Preserving.instantiate hP.toStable t w hw
  | instantiateWith t props w => exact Build.Preserving.instantiateWith hP.toStable t props w hw
  | setInput id name source w => exact Build.Preserving.setInput hP.toStable id name source w hw
  | assemble stack props w => exact Build.Preserving.assemble hP stack props w hw
  | create r id props w _ ih =>
    unfold Registry.create
    split
    · exact hw
    · exact ih _ ‹_› hw

/-- Delegates are older than what delegates to them, whatever calls were made. -/
theorem Workspace.Evolves.founded {w w' : Workspace} (h : w.Evolves w')
    (hw : w.store.Founded) : w'.store.Founded :=
  h.preserves Store.founded_lasting hw

/-! ## Calls -/

/-- A call that wires an input reaches the end of the chain of delegates. It returns exactly if the
instance there declares the input and the source passes the check of its port; then this source is
all that changes, and otherwise nothing does. -/
theorem Build.setInput_exact {w : Workspace} (hw : w.store.Founded) (id : NodeId) (name : String)
    (source : Source NodeId) : ∃ owner, w.store.Forwards id owner ∧
      ((∃ w', (setInput id name source).Returns w () w') ↔
        ∃ port, (w.store.get owner).inputs.get? name = some port ∧
          (port.wired source).validate w.store.design = .ok ()) ∧
      (∀ e, (setInput id name source).Fails w e → (setInput id name source).after w = w) ∧
      ∀ w', (setInput id name source).Returns w () w' →
        w'.notices = w.notices ∧ w.store.Replaces w'.store owner name source := by
  refine ⟨_, w.store.forwards_owner hw id, ?_, ?_, ?_⟩
  · simp only [returns_setInput_iff rfl]
    constructor
    · rintro ⟨_, port, hport, hvalid, -⟩
      exact ⟨port, hport, hvalid⟩
    · rintro ⟨port, hport, hvalid⟩
      exact ⟨_, port, hport, hvalid, rfl⟩
  · intro e he
    change ((liftM (w.store.setInput id name source) : Build Store) >>= setStore).Fails w e at he
    change ((liftM (w.store.setInput id name source) : Build Store) >>= setStore).after w = w
    rcases hstep : w.store.setInput id name source with e' | s
    · rfl
    · rw [hstep] at he
      cases he
  · intro w' h
    obtain ⟨port, hport, -, rfl⟩ := (returns_setInput_iff rfl).1 h
    exact ⟨rfl, Store.replaces_set source hport⟩

/-- Wiring the tail of a stack wires its head. -/
theorem setInput_exact_layers : ∃ head tail w' w'',
    (layered.assemble []).Returns layers tail w' ∧ w'.store.Founded ∧
    (w'.store.get tail).delegate = some head ∧
    (Build.setInput tail "value" (.raw "position")).Returns w' () w'' ∧
    w'.store.Replaces w''.store head "value" (.raw "position") := by
  have hhead : (layered.head.instantiateWith []).Returns layers ⟨2⟩ _ :=
    Node.returns_instantiateWith_iff.2 ⟨_, rfl, rfl, rfl, rfl⟩
  obtain ⟨tail, w', h⟩ :=
    Stack.exists_assemble (by decide) passes_layers hhead rfl rfl rfl
  obtain ⟨head, hchains⟩ := Stack.chains_of_assemble (by decide)
    (fun f hf => ⟨(passes_layers f hf).held, (passes_layers f hf).delegate⟩) h
  have hempty : layers.store.Founded := by
    rintro ⟨_ | _ | n⟩ other h <;> cases h
  have hw : w'.store.Founded :=
    h.after_eq ▸ (Workspace.Evolves.assemble layered [] layers).founded hempty
  obtain ⟨owner, hto, hok, -, hreplaces⟩ :=
    Build.setInput_exact hw tail "value" (.raw "position")
  obtain rfl : head = owner :=
    (Store.Forwards.delegate hchains.tail_delegate (.own hchains.head_delegate)).unique hto
  obtain ⟨w'', hw''⟩ := hok.2 ⟨_, hchains.head_port "value" _ rfl, rfl⟩
  exact ⟨head, tail, w', w'', h, hw, hchains.tail_delegate, hw'', (hreplaces w'' hw'').2⟩

end ShaderGraph
