import ShaderGraph.Proofs.Wiring

/-!
# What a stack that fails leaves behind

A stack wires its filters one by one, and what was wired before a failure stays wired
(`Stack.Stops` says where threading fails and what was wired by then). The input that a filter is
wired at is its primary input, at the end of its chain of delegates; all other inputs that there
were read what they read before (`Store.Relinked`, `Stack.assemble_fails`).
-/

namespace ShaderGraph

/-! ## Links -/

/-- What comes before each filter, together with the filter. -/
abbrev Links := List (NodeId × NodeId)

namespace Store

variable {s t u : Store} {links links' : Links} {previous filter owner : NodeId}

/-- The input is the one that a link wires: the primary input of a filter, on the instance that the
filter leaves its wiring to, which reads the first output of what comes before the filter. -/
def Linked (s : Store) (links : Links) (id : NodeId) (name : String)
    (source : Option (Source NodeId)) : Prop :=
  ∃ previous filter output, (previous, filter) ∈ links ∧ s.Forwards filter id ∧
    (s.get filter).primaryInput = some name ∧ (s.design previous).primaryOutput = some output ∧
    source = some (.edge previous output)

/-- Two stores are the same but for what the inputs that links wire read. -/
structure Relinked (links : Links) (before after : Store) : Prop where
  size : after.size = before.size
  design : ∀ id, after.design id = before.design id
  delegate : ∀ id, (after.get id).delegate = (before.get id).delegate
  keys : ∀ id, (after.get id).inputs.keys = (before.get id).inputs.keys
  port : ∀ id name p, (before.get id).inputs.get? name = some p →
    ∃ source, (after.get id).inputs.get? name = some { p with source := source } ∧
      (source = p.source ∨ after.Linked links id name source)

theorem Linked.mono {id : NodeId} {name : String} {source : Option (Source NodeId)}
    (h : s.Linked links id name source) (hlinks : links ⊆ links') :
    s.Linked links' id name source := by
  obtain ⟨previous, filter, output, hmem, hrest⟩ := h
  exact ⟨previous, filter, output, hlinks hmem, hrest⟩

namespace Relinked

theorem refl (s : Store) : Relinked [] s s :=
  ⟨rfl, fun _ => rfl, fun _ => rfl, fun _ => rfl, fun _ _ p hp => ⟨p.source, hp, .inl rfl⟩⟩

theorem primaryInput (h : Relinked links s t) (id : NodeId) :
    (t.get id).primaryInput = (s.get id).primaryInput := by
  have hdesign : (t.get id).design = (s.get id).design := h.design id
  rw [Node.primaryInput, Node.primaryInput, hdesign, h.keys]

theorem linked (h : Relinked links s t) {id : NodeId} {name : String}
    {source : Option (Source NodeId)} (hs : s.Linked links' id name source) :
    t.Linked links' id name source := by
  obtain ⟨previous, filter, output, hmem, hto, hprimary, houtput, hsource⟩ := hs
  refine ⟨previous, filter, output, hmem, hto.congr h.delegate, ?_, ?_, hsource⟩
  · rw [h.primaryInput, hprimary]
  · rw [h.design, houtput]

theorem trans (h : Relinked links s t) (h' : Relinked links' t u) :
    Relinked (links ++ links') s u where
  size := h'.size.trans h.size
  design id := (h'.design id).trans (h.design id)
  delegate id := (h'.delegate id).trans (h.delegate id)
  keys id := (h'.keys id).trans (h.keys id)
  port id name p hp := by
    obtain ⟨source, hsource, hold⟩ := h.port id name p hp
    obtain ⟨source', hsource', hnew⟩ := h'.port id name _ hsource
    refine ⟨source', hsource', ?_⟩
    rcases hnew with rfl | hnew
    · exact hold.imp_right fun hl => (h'.linked hl).mono (List.subset_append_left _ _)
    · exact .inr (hnew.mono (List.subset_append_right _ _))

end Relinked

/-- Replacing a source at the end of the chain of a filter, for its primary input, relinks it. -/
theorem Replaces.relinked {primary output : String}
    (h : s.Replaces t owner primary (.edge previous output)) (hto : s.Forwards filter owner)
    (hprimary : (s.get filter).primaryInput = some primary)
    (houtput : (s.design previous).primaryOutput = some output) :
    Relinked [(previous, filter)] s t := by
  have hdesign : ∀ id, t.design id = s.design id := by
    intro id
    by_cases hid : id = owner
    · rw [hid, h.design]
    · rw [Store.design, h.others id hid, Store.design]
  have hkeys : ∀ id, (t.get id).inputs.keys = (s.get id).inputs.keys := by
    intro id
    by_cases hid : id = owner
    · rw [hid, h.keys]
    · rw [h.others id hid]
  refine ⟨h.size, hdesign, h.delegates, hkeys, fun id name p hp => ?_⟩
  by_cases hid : id = owner
  · subst hid
    by_cases hname : name = primary
    · subst hname
      obtain ⟨port, hport, hwired⟩ := h.port
      rw [hp] at hport
      cases hport
      refine ⟨_, hwired, .inr ⟨previous, filter, output, List.mem_singleton_self _,
        hto.congr h.delegates, ?_, ?_, rfl⟩⟩
      · have hsame : (t.get filter).design = (s.get filter).design := hdesign filter
        rw [Node.primaryInput, hsame, hkeys]
        exact hprimary
      · rw [hdesign, houtput]
    · rw [h.otherPorts name hname]
      exact ⟨p.source, hp, .inl rfl⟩
  · rw [h.others id hid]
    exact ⟨p.source, hp, .inl rfl⟩

end Store

/-! ## One filter -/

@[simp] theorem Build.run_store_bind {α : Type} (f : Store → Build α) (w : Workspace) :
    (Build.store >>= f).run.run w = (f w.store).run.run w := rfl

theorem Build.run_setInput (id : NodeId) (name : String) (source : Source NodeId) (w : Workspace) :
    (setInput id name source).run.run w = match w.store.setInput id name source with
      | .ok s => (.ok (), ⟨s, w.notices⟩)
      | .error e => (.error e, w) := by
  change ((liftM (w.store.setInput id name source) : Build Store) >>= setStore).run.run w = _
  rcases w.store.setInput id name source with e | s <;> rfl

namespace Stack

variable {name : String} {w v : Workspace} {previous next : NodeId × String} {filter : NodeId}
  {e : NodeError}

/-- What threading does with a filter whose primary input and first output are known. -/
def wire (filter : NodeId) (primary : String) (source : Source NodeId) (output : Option String)
    (error : NodeError) : Build (NodeId × String) := do
  Build.setInput filter primary source
  let some output := output | throw error
  return (filter, output)

theorem run_wire (primary : String) (source : Source NodeId) (output : Option String)
    (error : NodeError) (w : Workspace) : (wire filter primary source output error).run.run w =
      match w.store.setInput filter primary source with
      | .error e => (.error e, w)
      | .ok t =>
        (output.elim (.error error) fun output => .ok (filter, output), ⟨t, w.notices⟩) := by
  have hset := Build.run_setInput filter primary source w
  rcases hstep : w.store.setInput filter primary source with e | t
  · simp only [wire, ExceptT.run_bind, StateT.run_bind, hset, hstep]
    rfl
  · simp only [wire, ExceptT.run_bind, StateT.run_bind, hset, hstep]
    rcases output with _ | output <;> rfl

variable (name previous) in
theorem run_thread {primary : String}
    (hprimary : (w.store.get filter).primaryInput = some primary) :
    ∃ notices error, (thread name previous filter).run.run w =
      match w.store.setInput filter primary (.edge previous.1 previous.2) with
      | .error e => (.error e, ⟨w.store, notices⟩)
      | .ok t => ((w.store.design filter).primaryOutput.elim (.error error)
          fun output => .ok (filter, output), ⟨t, notices⟩) := by
  simp only [thread, Build.run_store_bind, hprimary]
  split_ifs
  · exact ⟨_, _, run_wire primary _ _ _ ⟨w.store, _⟩⟩
  · exact ⟨_, _, run_wire primary _ _ _ w⟩

theorem run_thread_none (hprimary : (w.store.get filter).primaryInput = none) :
    (thread name previous filter).run.run w =
      (.error (.noPrimaryInput (w.store.get filter).name), w) := by
  simp only [thread, Build.run_store_bind, hprimary]
  rfl

/-- A filter that is threaded was wired at its primary input. -/
theorem wired_of_returns (h : (thread name previous filter).Returns w next v) :
    ∃ primary, (w.store.get filter).primaryInput = some primary ∧
      w.store.setInput filter primary (.edge previous.1 previous.2) = .ok v.store ∧
      next.1 = filter ∧ (w.store.design filter).primaryOutput = some next.2 := by
  unfold Build.Returns at h
  rcases hprimary : (w.store.get filter).primaryInput with _ | primary
  · rw [run_thread_none hprimary] at h
    cases h
  · obtain ⟨notices, error, hrun⟩ := run_thread name previous hprimary
    rw [hrun] at h
    rcases hset : w.store.setInput filter primary (.edge previous.1 previous.2) with e | t
    · rw [hset] at h
      cases h
    · rw [hset] at h
      rcases houtput : (w.store.design filter).primaryOutput with _ | output
      · rw [houtput] at h
        cases h
      · rw [houtput] at h
        cases h
        exact ⟨primary, rfl, hset, rfl, rfl⟩

variable (previous) in
/-- A filter can be wired: its primary input takes what comes before it. -/
def Wires (w : Workspace) (filter : NodeId) (t : Store) : Prop :=
  ∃ primary, (w.store.get filter).primaryInput = some primary ∧
    w.store.setInput filter primary (.edge previous.1 previous.2) = .ok t

/-- A filter that fails cannot be wired, or it was wired and has no output. -/
theorem wires_of_fails (h : (thread name previous filter).Fails w e) :
    ((thread name previous filter).after w).store = w.store ∧ (∀ t, ¬ Wires previous w filter t) ∨
      (w.store.design filter).primaryOutput = none ∧
        Wires previous w filter ((thread name previous filter).after w).store := by
  unfold Build.Fails at h
  unfold Build.after
  rcases hprimary : (w.store.get filter).primaryInput with _ | primary
  · rw [run_thread_none hprimary]
    refine .inl ⟨rfl, ?_⟩
    rintro t ⟨primary, hsome, -⟩
    cases hprimary.symm.trans hsome
  · obtain ⟨notices, error, hrun⟩ := run_thread name previous hprimary
    rw [hrun] at h ⊢
    rcases hset : w.store.setInput filter primary (.edge previous.1 previous.2) with e' | t
    · refine .inl ⟨rfl, ?_⟩
      rintro t ⟨primary', hsome, hok⟩
      cases hprimary.symm.trans hsome
      cases hset.symm.trans hok
    · rw [hset] at h
      rcases houtput : (w.store.design filter).primaryOutput with _ | output
      · exact .inr ⟨rfl, primary, hprimary, hset⟩
      · rw [houtput] at h
        cases h

/-! ## All filters -/

/-- Where threading stops with an error, and the filters that were wired by then: all in front of the
failing one, and that one itself only if it could be wired. -/
inductive Stops (name : String) : List NodeId → NodeId × String → Workspace → NodeError →
    List NodeId → Prop
  /-- The filter cannot be wired. -/
  | unwired {filter : NodeId} {rest : List NodeId} {previous : NodeId × String} {w : Workspace}
      {e : NodeError} : (thread name previous filter).Fails w e →
      (∀ t, ¬ Wires previous w filter t) → Stops name (filter :: rest) previous w e []
  /-- The filter is wired and has no output for the next one to read. -/
  | silent {filter : NodeId} {rest : List NodeId} {previous : NodeId × String} {w : Workspace}
      {e : NodeError} {t : Store} : (thread name previous filter).Fails w e →
      Wires previous w filter t → (w.store.design filter).primaryOutput = none →
      Stops name (filter :: rest) previous w e [filter]
  /-- The filter is threaded and a later one fails. -/
  | later {filter : NodeId} {rest wired : List NodeId} {previous next : NodeId × String}
      {w v : Workspace} {e : NodeError} : (thread name previous filter).Returns w next v →
      Stops name rest next v e wired → Stops name (filter :: rest) previous w e (filter :: wired)

theorem relinked_of_setInput (hw : w.store.Founded)
    (hprevious : (w.store.design previous.1).primaryOutput = some previous.2) {primary : String}
    (hprimary : (w.store.get filter).primaryInput = some primary) {t : Store}
    (h : w.store.setInput filter primary (.edge previous.1 previous.2) = .ok t) :
    Store.Relinked [(previous.1, filter)] w.store t :=
  (Store.replaces_of_setInput h).relinked (w.store.forwards_owner hw filter) hprimary hprevious

/-- A filter that is threaded is relinked, and the next one is to read its first output. -/
theorem relinked_of_returns (hw : w.store.Founded)
    (hprevious : (w.store.design previous.1).primaryOutput = some previous.2)
    (h : (thread name previous filter).Returns w next v) :
    Store.Relinked [(previous.1, filter)] w.store v.store ∧ next.1 = filter ∧
      (v.store.design next.1).primaryOutput = some next.2 := by
  obtain ⟨primary, hprimary, hset, hnext, houtput⟩ := wired_of_returns h
  have hlink := relinked_of_setInput hw hprevious hprimary hset
  refine ⟨hlink, hnext, ?_⟩
  rw [hnext, hlink.design, houtput]

/-- Threading that fails relinks the filters in front of where it stops. -/
theorem relinked_of_fails : ∀ {filters : List NodeId} {previous : NodeId × String} {w : Workspace},
    w.store.Founded → (w.store.design previous.1).primaryOutput = some previous.2 →
    (filters.foldlM (thread name) previous).Fails w e → ∃ wired,
      Stops name filters previous w e wired ∧
      Store.Relinked ((previous.1 :: wired).zip wired) w.store
        ((filters.foldlM (thread name) previous).after w).store
  | [], previous, w, _, _, h => by cases h
  | filter :: rest, previous, w, hw, hprevious, h => by
    rw [List.foldlM_cons] at h ⊢
    rcases Build.fails_bind_iff.1 h with hfails | ⟨next, v, hreturns, hrest⟩
    · rw [hfails.after_bind]
      rcases wires_of_fails hfails with ⟨hsame, hunwired⟩ | ⟨hnone, hwires⟩
      · refine ⟨[], .unwired hfails hunwired, ?_⟩
        rw [hsame]
        exact .refl _
      · obtain ⟨primary, hprimary, hset⟩ := hwires
        exact ⟨[filter], .silent hfails ⟨primary, hprimary, hset⟩ hnone,
          relinked_of_setInput hw hprevious hprimary hset⟩
    · obtain ⟨hlink, hnext, houtput⟩ := relinked_of_returns hw hprevious hreturns
      obtain ⟨wired, hstops, hrelinked⟩ :=
        relinked_of_fails (hw.congr hlink.delegate) houtput hrest
      refine ⟨filter :: wired, .later hreturns hstops, ?_⟩
      rw [hreturns.after_bind]
      rw [hnext] at hrelinked
      exact hlink.trans hrelinked

/-- What was threaded last has a first output. -/
theorem output_of_returns : ∀ {filters : List NodeId} {previous last : NodeId × String}
    {w u : Workspace}, w.store.Founded →
    (w.store.design previous.1).primaryOutput = some previous.2 →
    (filters.foldlM (thread name) previous).Returns w last u →
      (u.store.design last.1).primaryOutput = some last.2
  | [], previous, last, w, u, _, hprevious, h => by
    obtain ⟨rfl, rfl⟩ := Build.returns_pure_iff.1 h
    exact hprevious
  | filter :: rest, previous, last, w, u, hw, hprevious, h => by
    rw [List.foldlM_cons, Build.returns_bind_iff] at h
    obtain ⟨next, v, hreturns, hrest⟩ := h
    obtain ⟨hlink, -, houtput⟩ := relinked_of_returns hw hprevious hreturns
    exact output_of_returns (hw.congr hlink.delegate) houtput hrest

/-! ## Whole stacks -/

theorem Design.outputKind_isOk (d : Design) {output : String} (h : d.primaryOutput = some output) :
    ∃ kind, d.outputKind output = .ok kind := by
  have hmem : output ∈ d.outputs.keys := List.mem_of_head? h
  obtain ⟨spec, hspec⟩ := Option.isSome_iff_exists.1
    ((Table.contains_eq_true_iff d.outputs output).2 hmem)
  exact ⟨spec.kind, d.outputKind_eq_ok hspec⟩

/-- An instance that cannot be made leaves no trace. -/
theorem after_instantiateWith_of_fails {t : Template} {props : Props}
    (h : (t.instantiateWith props).Fails w e) : (t.instantiateWith props).after w = w := by
  unfold Node.instantiateWith at h ⊢
  rcases hprops : t.withProps props with e' | t'
  · rfl
  · rw [hprops] at h
    change ((liftM (t'.check w.store) : Build Unit) >>= fun _ => t'.instantiate).after w = w
    change ((liftM (t'.check w.store) : Build Unit) >>= fun _ => t'.instantiate).Fails w e at h
    rcases hcheck : t'.check w.store with e' | u
    · rfl
    · rw [hcheck] at h
      cases h

variable {s : Stack} {props : Props} {head : NodeId}

/-- The head is a new instance of its own with the outputs of the stack. -/
theorem head_of_returns (hw : w.store.Founded)
    (h : (s.head.instantiateWith props).Returns w head v) :
    v.store.Founded ∧ (v.store.design head).primaryOutput = s.outputs.keys.head? ∧
      ∀ id, w.store.Holds id → v.store.get id = w.store.get id := by
  have hfounded := Build.Founding.instantiateWith s.head props w hw
  rw [h.after_eq] at hfounded
  obtain ⟨t, hprops, -, rfl, rfl⟩ := Node.returns_instantiateWith_iff.1 h
  refine ⟨hfounded, ?_, fun id hid => Store.get_add hid _⟩
  have hdesign : t.design = s.head.design := Node.design_withProps hprops
  rw [Store.design, Store.get_add_self, hdesign]
  rfl

/-- An assembly fails with its head, for want of an output, or at a filter. -/
theorem fails_assemble_iff (hw : w.store.Founded) :
    (s.assemble props).Fails w e ↔ (s.head.instantiateWith props).Fails w e ∨
      ∃ head v, (s.head.instantiateWith props).Returns w head v ∧
        match s.outputs.keys.head? with
        | none => e = .fault s.name "" (.noOutput s.name)
        | some output => (s.filters.foldlM (thread s.name) (head, output)).Fails v e := by
  unfold assemble
  rw [Build.fails_bind_iff]
  refine or_congr_right (exists_congr fun head => exists_congr fun v =>
    and_congr_right fun hhead => ?_)
  obtain ⟨hv, hfirst, -⟩ := head_of_returns hw hhead
  rcases houtput : s.outputs.keys.head? with _ | output
  · exact Build.fails_throw_iff
  · refine Build.fails_bind_iff.trans (or_iff_left ?_)
    -- the tail finds an output, since the last filter gave one
    rintro ⟨last, u, hfold, hrest⟩
    obtain ⟨kind, hkind⟩ := Design.outputKind_isOk (u.store.design last.1)
      (output_of_returns hv (hfirst.trans houtput) hfold)
    rw [Build.fails_store_bind_iff, hkind] at hrest
    cases hrest

/-- What an assembly that fails leaves behind. If the head cannot be built or the stack has no
output, every input reads what it read before. Otherwise a filter stops the stack, and inputs read
what they read before except for those that were wired on the way to it. -/
theorem assemble_fails (hw : w.store.Founded)
    (h : (s.assemble props).Fails w e) : ∃ links,
      (links = [] ∧ ((s.head.instantiateWith props).Fails w e ∨ s.outputs.keys.head? = none) ∨
        ∃ head v output wired, (s.head.instantiateWith props).Returns w head v ∧
          s.outputs.keys.head? = some output ∧
          Stops s.name s.filters (head, output) v e wired ∧ links = (head :: wired).zip wired) ∧
      ∀ id name port, (w.store.get id).inputs.get? name = some port → ∃ source,
        (((s.assemble props).after w).store.get id).inputs.get? name =
            some { port with source := source } ∧
          (source = port.source ∨
            ((s.assemble props).after w).store.Linked links id name source) := by
  have hsame : ∀ {t : Store}, (∀ id, w.store.Holds id → t.get id = w.store.get id) →
      ∀ id name port, (w.store.get id).inputs.get? name = some port → ∃ source,
        (t.get id).inputs.get? name = some { port with source := source } ∧
          (source = port.source ∨ t.Linked [] id name source) := by
    intro t ht id name port hport
    refine ⟨port.source, ?_, .inl rfl⟩
    rw [ht id (Store.holds_of_port hport)]
    exact hport
  rcases (fails_assemble_iff hw).1 h with hfails | ⟨head, v, hhead, hfails⟩
  · refine ⟨[], .inl ⟨rfl, .inl hfails⟩, hsame fun id _ => ?_⟩
    rw [assemble, hfails.after_bind, after_instantiateWith_of_fails hfails]
  · obtain ⟨hv, hfirst, hold⟩ := head_of_returns hw hhead
    rw [assemble, hhead.after_bind]
    rcases houtput : s.outputs.keys.head? with _ | output
    · exact ⟨[], .inl ⟨rfl, .inr rfl⟩, hsame hold⟩
    · rw [houtput] at hfails
      obtain ⟨wired, hstops, hrelinked⟩ :=
        relinked_of_fails hv (hfirst.trans houtput) hfails
      refine ⟨_, .inr ⟨head, v, output, wired, hhead, rfl, hstops, rfl⟩, ?_⟩
      dsimp only
      rw [Build.Fails.after_bind hfails]
      intro id name port hport
      refine hrelinked.port id name port ?_
      rw [hold id (Store.holds_of_port hport)]
      exact hport

end Stack

section Clash

open Library

/-- A sum of vectors and a product of numbers. -/
def mixed : Workspace :=
  ⟨⟨#[⟨binaryTemplate "Add" .vector3 "+", none⟩, ⟨binaryTemplate "Multiply" .float "*", none⟩]⟩,
    []⟩

/-- A stack of vectors whose second filter takes numbers. -/
def clashing : Stack :=
  Stack.named "Clash"
    |>.input "value" (.ofKind .vector3)
    |>.output "value" .vector3 "in_value"
    |>.filter ⟨0⟩
    |>.filter ⟨1⟩

def clash : NodeError := .fault "Multiply" "a" (.mismatch .float .vector3)

theorem fails_clash : (clashing.assemble []).Fails mixed clash := by
  unfold Build.Fails
  decide +kernel

theorem assemble_fails_clash : mixed.store.Founded ∧ (clashing.assemble []).Fails mixed clash ∧
    ∃ links, ∀ id name port, (mixed.store.get id).inputs.get? name = some port → ∃ source,
      (((clashing.assemble []).after mixed).store.get id).inputs.get? name =
          some { port with source := source } ∧
        (source = port.source ∨
          ((clashing.assemble []).after mixed).store.Linked links id name source) := by
  have hw : mixed.store.Founded := by
    rintro ⟨_ | _ | n⟩ other h <;> cases h
  obtain ⟨links, -, hlinks⟩ := Stack.assemble_fails hw fails_clash
  exact ⟨hw, fails_clash, links, hlinks⟩

/-- The sum stays wired to the head of a stack that could not be assembled. -/
theorem failed_stack_rewires : (clashing.assemble []).Fails mixed clash ∧
    (mixed.store.get ⟨0⟩).inputs.get? "a" = some (.ofKind .vector3) ∧
    (((clashing.assemble []).after mixed).store.get ⟨0⟩).inputs.get? "a" =
      some ((Port.ofKind .vector3).wired (.edge ⟨2⟩ "value")) := by
  refine ⟨fails_clash, rfl, ?_⟩
  decide +kernel

end Clash

end ShaderGraph
