import ShaderGraph.Proofs.Building

/-!
# Stacks are chains

A stack that is assembled wires each filter to what comes before it and changes nothing else
(`Stack.Chains`): one filter after the other (`Stack.thread_returns_iff`), and so by induction all
of them (`Stack.foldlM_thread`). Whoever wires the stack later on wires its head, whatever the name
of the input is (`Workspace.rewired_setInputs`), so that no call breaks the chain
(`Stack.assemble_chains`).
-/

namespace ShaderGraph

theorem Design.exists_of_outputKind {d : Design} {output : String} {kind : Kind}
    (h : d.outputKind output = .ok kind) :
    ∃ spec, d.outputs.get? output = some spec ∧ spec.kind = kind := by
  unfold outputKind at h
  split_ifs at h
  rcases hspec : d.outputs.get? output with _ | spec
  · rw [hspec] at h
    cases h
  · rw [hspec] at h
    exact ⟨spec, rfl, Except.ok.inj h⟩

/-! ## One filter -/

/-- The primary input of a filter reads the first output of what comes before it, which fits, and
otherwise the filter is what it was. -/
def Store.Follows (before after : Store) (previous filter : NodeId) : Prop :=
  ∃ primary port output, (before.get filter).primaryInput = some primary ∧
    (before.get filter).inputs.get? primary = some port ∧
    (after.design previous).primaryOutput = some output ∧
    (port.wired (.edge previous output)).validate after.design = .ok () ∧
    after.get filter = (before.get filter).wired primary (port.wired (.edge previous output))

/-- Whether a filter follows another node hangs on the filter and on the design of the node. -/
theorem Store.Follows.congr {before before' after after' : Store} {previous filter : NodeId}
    (h : before.Follows after previous filter) (hbefore : before'.get filter = before.get filter)
    (hdesign : after'.design previous = after.design previous)
    (hafter : after'.get filter = after.get filter) : before'.Follows after' previous filter := by
  obtain ⟨primary, port, output, hprimary, hport, houtput, hvalid, hwired⟩ := h
  rw [← hbefore] at hprimary hport hwired
  refine ⟨primary, port, output, hprimary, hport, hdesign ▸ houtput, ?_, hafter.trans hwired⟩
  rw [← hvalid]
  refine Port.validate_congr _ fun producer o he => ?_
  cases he
  exact hdesign

namespace Stack

variable {name : String} {w w' : Workspace} {previous last : NodeId × String} {filter : NodeId}

/-- What threading does with a filter after the notice. -/
theorem wire_returns_iff (hdel : (w.store.get filter).delegate = none) {primary : String}
    {source : Source NodeId} {error : NodeError} :
    Build.Returns (do
      Build.setInput filter primary source
      let some output := (w.store.get filter).design.primaryOutput | throw error
      return (filter, output)) w last w' ↔
    ∃ port output, (w.store.get filter).inputs.get? primary = some port ∧
      (port.wired source).validate w.store.design = .ok () ∧
      (w.store.get filter).design.primaryOutput = some output ∧ last = (filter, output) ∧
      w' = ⟨w.store.set filter ((w.store.get filter).wired primary (port.wired source)),
        w.notices⟩ := by
  simp only [Build.returns_bind_iff, Build.returns_setInput_iff (Store.owner_of_none hdel)]
  rcases (w.store.get filter).design.primaryOutput with _ | output
  · simp
  · simp only [Build.returns_pure_iff, Option.some.injEq]
    constructor
    · rintro ⟨_, _, ⟨port, hport, hvalid, rfl⟩, hlast, hw⟩
      exact ⟨port, _, hport, hvalid, rfl, hlast, hw⟩
    · rintro ⟨port, _, hport, hvalid, rfl, hlast, hw⟩
      exact ⟨(), _, ⟨port, hport, hvalid, rfl⟩, hlast, hw⟩

/-- A filter is wired if it has a primary input that takes the output before it, and if it has an
output of its own. -/
theorem thread_returns_iff (hdel : (w.store.get filter).delegate = none) :
    (thread name previous filter).Returns w last w' ↔ ∃ primary port output,
      (w.store.get filter).primaryInput = some primary ∧
      (w.store.get filter).inputs.get? primary = some port ∧
      (port.wired (.edge previous.1 previous.2)).validate w.store.design = .ok () ∧
      (w.store.get filter).design.primaryOutput = some output ∧ last = (filter, output) ∧
      w' = ⟨w.store.set filter
          ((w.store.get filter).wired primary (port.wired (.edge previous.1 previous.2))),
        if port.source.isSome then w.notices ++ [⟨name, (w.store.get filter).name, primary⟩]
          else w.notices⟩ := by
  simp only [thread, Build.returns_store_bind_iff]
  rcases (w.store.get filter).primaryInput with _ | primary
  · exact iff_of_false Build.not_returns_throw (by simp)
  simp only [Option.some.injEq, exists_and_left, exists_eq_left']
  rcases hport : (w.store.get filter).inputs.get? primary with _ | port
  · refine iff_of_false (fun h => ?_) (by simp)
    rw [if_neg (by simp)] at h
    obtain ⟨port, -, hport', -⟩ := (wire_returns_iff hdel).1 h
    rw [hport] at hport'
    cases hport'
  simp only [Option.some.injEq, exists_eq_left', Option.bind_some]
  split_ifs with hsource
  · rw [Build.returns_notify_bind_iff]
    refine (wire_returns_iff (w := ⟨w.store, w.notices ++ [_]⟩) hdel).trans ?_
    simp only [hport, Option.some.injEq, exists_and_left, exists_eq_left']
  · refine (wire_returns_iff hdel).trans ?_
    simp only [hport, Option.some.injEq, exists_and_left, exists_eq_left']

/-! ## All filters -/

/-- What threading a value through filters does to a store: each of them follows what comes before
it, and nothing else changes. -/
structure Threads (filters : List NodeId) (previous last : NodeId × String)
    (before after : Store) : Prop where
  size : after.size = before.size
  design : ∀ id, after.design id = before.design id
  chain : (previous.1 :: filters).IsChain (before.Follows after)
  others : ∀ id, id ∉ filters → after.get id = before.get id
  getLast : (previous.1 :: filters).getLast? = some last.1
  output : (after.design last.1).primaryOutput = some last.2

namespace Threads

variable {filters : List NodeId} {s t u : Store} {next : NodeId × String}

theorem refl (h : (s.design previous.1).primaryOutput = some previous.2) :
    Threads [] previous previous s s :=
  ⟨rfl, fun _ => rfl, .singleton _, fun _ _ => rfl, rfl, h⟩

theorem cons (h : Threads [filter] previous next s t) (hrest : Threads filters next last t u)
    (hnew : filter ∉ filters) : Threads (filter :: filters) previous last s u := by
  obtain ⟨next, output⟩ := next
  obtain rfl : filter = next := Option.some.inj h.getLast
  refine ⟨hrest.size.trans h.size, fun id => (hrest.design id).trans (h.design id), ?_,
    fun id hid => ?_, hrest.getLast, hrest.output⟩
  · refine List.isChain_cons_cons.2 ⟨?_, hrest.chain.imp_of_mem_tail_imp ?_⟩
    · -- the filters after this one leave it alone
      have hfollows := (List.isChain_cons_cons.1 h.chain).1
      exact hfollows.congr rfl (hrest.design _) (hrest.others _ hnew)
    · intro a b _ hb hfollows
      have hne : b ∉ [filter] := fun he => hnew (List.mem_singleton.1 he ▸ hb)
      exact hfollows.congr (h.others b hne).symm rfl rfl
  · rw [List.mem_cons, not_or] at hid
    exact (hrest.others id hid.2).trans (h.others id fun he => hid.1 (List.mem_singleton.1 he))

end Threads

theorem thread_threads (hprevious : (w.store.design previous.1).primaryOutput = some previous.2)
    (hdel : (w.store.get filter).delegate = none)
    (h : (thread name previous filter).Returns w last w') :
    Threads [filter] previous last w.store w'.store := by
  obtain ⟨primary, port, output, hprimary, hport, hvalid, houtput, rfl, rfl⟩ :=
    (thread_returns_iff hdel).1 h
  have hheld := Store.holds_of_port hport
  have hdesign := Store.design_set hheld (i := (w.store.get filter).wired primary
    (port.wired (.edge previous.1 previous.2))) rfl
  have hget := Store.get_set hheld
  refine ⟨Store.size_set _ _ _, hdesign, List.isChain_pair.2 ?_, fun id hid => ?_, rfl, ?_⟩
  · refine ⟨primary, port, previous.2, hprimary, hport, (hdesign _).symm ▸ hprevious, ?_,
      by rw [hget, if_pos rfl]⟩
    rw [← hvalid]
    exact Port.validate_congr _ fun producer _ _ => hdesign producer
  · rw [hget, if_neg fun he => hid (List.mem_singleton.2 he)]
  · rw [hdesign]
    exact houtput

theorem foldlM_thread : ∀ {filters : List NodeId} {w : Workspace} {previous : NodeId × String},
    (w.store.design previous.1).primaryOutput = some previous.2 → filters.Nodup →
    (∀ f ∈ filters, (w.store.get f).delegate = none) →
    (filters.foldlM (thread name) previous).Returns w last w' →
      Threads filters previous last w.store w'.store
  | [], w, previous, hprevious, _, _, h => by
    obtain ⟨rfl, rfl⟩ := Build.returns_pure_iff.1 h
    exact .refl hprevious
  | filter :: filters, w, previous, hprevious, hnodup, hdel, h => by
    obtain ⟨hnew, hnodup⟩ := List.nodup_cons.1 hnodup
    obtain ⟨hfilter, hdel⟩ := List.forall_mem_cons.1 hdel
    rw [List.foldlM_cons, Build.returns_bind_iff] at h
    obtain ⟨next, v, hstep, hrest⟩ := h
    have hthreads := thread_threads hprevious hfilter hstep
    refine hthreads.cons (foldlM_thread hthreads.output hnodup (fun f hf => ?_) hrest) hnew
    rw [hthreads.others f fun he => hnew (List.mem_singleton.1 he ▸ hf)]
    exact hdel f hf

/-- A filter of its own that takes values of some kinds and gives one of them. -/
structure Passes (kinds : Kind → Prop) (s : Store) (f : NodeId) : Prop where
  held : s.Holds f
  delegate : (s.get f).delegate = none
  takes : ∃ primary port, (s.get f).primaryInput = some primary ∧
    (s.get f).inputs.get? primary = some port ∧
    ∀ kind, kinds kind → port.kind.accepts kind port.broadcast = true
  gives : ∃ output spec, (s.design f).primaryOutput = some output ∧
    (s.design f).outputs.get? output = some spec ∧ kinds spec.kind

theorem Passes.congr {kinds : Kind → Prop} {s t : Store} {f : NodeId} (h : Passes kinds s f)
    (hsize : s.size ≤ t.size) (hget : t.get f = s.get f) : Passes kinds t f where
  held := Nat.lt_of_lt_of_le h.held hsize
  delegate := by rw [hget, h.delegate]
  takes := by
    rw [hget]
    exact h.takes
  gives := by
    rw [Store.design, hget]
    exact h.gives

variable (name) in
/-- Such filters can be threaded. -/
theorem exists_foldlM_thread {kinds : Kind → Prop} : ∀ {filters : List NodeId} {w : Workspace}
    {previous : NodeId} {output : String} {spec : Output},
    (w.store.design previous).primaryOutput = some output →
    (w.store.design previous).outputs.get? output = some spec → kinds spec.kind →
    filters.Nodup → (∀ f ∈ filters, Passes kinds w.store f) →
      ∃ last u spec, (filters.foldlM (thread name) (previous, output)).Returns w last u ∧
        (u.store.design last.1).outputs.get? last.2 = some spec ∧ kinds spec.kind
  | [], w, previous, output, spec, _, hspec, hkind, _, _ =>
    ⟨(previous, output), w, spec, Build.returns_pure_iff.2 ⟨rfl, rfl⟩, hspec, hkind⟩
  | filter :: filters, w, previous, output, spec, hprevious, hspec, hkind, hnodup, hpass => by
    obtain ⟨hnew, hnodup⟩ := List.nodup_cons.1 hnodup
    obtain ⟨hfilter, hpass⟩ := List.forall_mem_cons.1 hpass
    obtain ⟨primary, port, hprimary, hport, haccepts⟩ := hfilter.takes
    obtain ⟨next, spec', hnext, hspec', hkind'⟩ := hfilter.gives
    obtain ⟨v, hstep⟩ : ∃ v, (thread name (previous, output) filter).Returns w (filter, next) v :=
      ⟨_, (thread_returns_iff hfilter.delegate).2 ⟨primary, port, next, hprimary, hport,
        Port.validate_edge hspec (haccepts _ hkind), hnext, rfl, rfl⟩⟩
    have hthreads := thread_threads hprevious hfilter.delegate hstep
    have hpass' : ∀ f ∈ filters, Passes kinds v.store f := fun f hf =>
      (hpass f hf).congr hthreads.size.ge
        (hthreads.others f fun he => hnew (List.mem_singleton.1 he ▸ hf))
    obtain ⟨last, u, spec, hrest, hlast⟩ := exists_foldlM_thread hthreads.output
      (by rw [hthreads.design]; exact hspec') hkind' hnodup hpass'
    refine ⟨last, u, spec, ?_, hlast⟩
    rw [List.foldlM_cons, Build.returns_bind_iff]
    exact ⟨_, v, hstep, hrest⟩

/-! ## Whole stacks -/

/-- The node that stands for a stack, behind its last filter. -/
def tail (s : Stack) (last : NodeId × String) (kind : Kind) : Template :=
  Node.named s.tailName
    |>.input "value" ((Port.ofKind kind).wired (.edge last.1 last.2))
    |>.output "value" kind "in_value"

variable {s : Stack} {props : Props} {id : NodeId}

theorem assemble_returns_iff : (s.assemble props).Returns w id w' ↔
    ∃ head v output last u kind, (s.head.instantiateWith props).Returns w head v ∧
      s.outputs.keys.head? = some output ∧
      (s.filters.foldlM (thread s.name) (head, output)).Returns v last u ∧
      (u.store.design last.1).outputKind last.2 = .ok kind ∧ id = ⟨u.store.size⟩ ∧
      w' = ⟨(u.store.add ⟨s.tail last kind, some head⟩).2, u.notices⟩ := by
  unfold assemble
  rw [Build.returns_bind_iff]
  refine exists_congr fun head => exists_congr fun v => ?_
  simp only [exists_and_left]
  refine and_congr_right fun _ => ?_
  rcases s.outputs.keys.head? with _ | output
  · exact iff_of_false Build.not_returns_throw (by simp)
  simp only [Option.some.injEq, exists_eq_left']
  rw [Build.returns_bind_iff]
  refine exists_congr fun last => ?_
  simp only [Build.returns_store_bind_iff, Build.returns_liftM_bind_iff, Build.returns_add_iff,
    mapError_eq_ok_iff]
  exact Iff.rfl

/-- A stack whose filters pass on what its head gives can be assembled. -/
theorem exists_assemble {kinds : Kind → Prop} {v : Workspace} {head : NodeId} {output : String}
    {spec : Output} (hnodup : s.filters.Nodup) (hpass : ∀ f ∈ s.filters, Passes kinds w.store f)
    (hhead : (s.head.instantiateWith props).Returns w head v)
    (houtput : s.outputs.keys.head? = some output) (hspec : s.outputs.get? output = some spec)
    (hkind : kinds spec.kind) : ∃ tail w', (s.assemble props).Returns w tail w' := by
  obtain ⟨t, hprops, -, rfl, rfl⟩ := Node.returns_instantiateWith_iff.1 hhead
  have hself : (w.store.add ⟨t, none⟩).2.design ⟨w.store.size⟩ = s.head.design := by
    rw [Store.design, Store.get_add_self]
    exact Node.design_withProps hprops
  have hgives : ((w.store.add ⟨t, none⟩).2.design ⟨w.store.size⟩).primaryOutput = some output ∧
      ((w.store.add ⟨t, none⟩).2.design ⟨w.store.size⟩).outputs.get? output = some spec := by
    rw [hself]
    exact ⟨houtput, hspec⟩
  have hpass' : ∀ f ∈ s.filters, Passes kinds (w.store.add ⟨t, none⟩).2 f := fun f hf =>
    (hpass f hf).congr (by simp [Store.size_add]) (Store.get_add (hpass f hf).held _)
  obtain ⟨last, u, spec', hfold, hlast, -⟩ := exists_foldlM_thread s.name
    (w := ⟨(w.store.add ⟨t, none⟩).2, w.notices⟩) hgives.1 hgives.2 hkind hnodup hpass'
  exact ⟨_, _, assemble_returns_iff.2 ⟨_, _, output, last, u, spec'.kind, hhead, houtput, hfold,
    Design.outputKind_eq_ok _ hlast, rfl, rfl⟩⟩

/-- What a stack leaves behind: a head of its own and a tail that stands for it, between which its
filters are a chain. -/
structure Chains (s : Stack) (props : Props) (before : Store) (head tail : NodeId)
    (after : Store) : Prop where
  head_fresh : head = ⟨before.size⟩
  tail_fresh : tail = ⟨before.size + 1⟩
  size : after.size = before.size + 2
  head_design : after.design head = { Design.named s.name with outputs := s.outputs }
  head_delegate : (after.get head).delegate = none
  head_keys : (after.get head).inputs.keys = s.inputs.keys
  head_port : ∀ name port, s.inputs.get? name = some port →
    (after.get head).inputs.get? name = some (port.given (props.source? name))
  /-- The first filter follows the head, every other one the filter before it. -/
  chain : (head :: s.filters).IsChain (before.Follows after)
  /-- The tail reads the last filter, or the head if there is none. -/
  tail_reads : ∃ last output spec, (head :: s.filters).getLast? = some last ∧
    (after.design last).primaryOutput = some output ∧
    (after.design last).outputs.get? output = some spec ∧
    (after.get tail).inputs.entries =
      [("value", ⟨spec.kind, some (.edge last output), false, false⟩)] ∧
    after.design tail =
      { Design.named s.tailName with
        outputs := Table.empty.insert "value" ⟨spec.kind, some "in_value"⟩ }
  tail_delegate : (after.get tail).delegate = some head
  others : ∀ id, before.Holds id → id ∉ s.filters → after.get id = before.get id

/-- Assembling makes a chain of filters that are there, different and without delegates. -/
theorem chains_of_assemble (hnodup : s.filters.Nodup)
    (hfilters : ∀ f ∈ s.filters, w.store.Holds f ∧ (w.store.get f).delegate = none)
    (h : (s.assemble props).Returns w id w') :
    ∃ head, s.Chains props w.store head id w'.store := by
  obtain ⟨head, v, output, ⟨last, lastOutput⟩, u, kind, hhead, houtput, hfold, hkind, rfl, rfl⟩ :=
    assemble_returns_iff.1 h
  obtain ⟨t, hprops, -, rfl, rfl⟩ := Node.returns_instantiateWith_iff.1 hhead
  have hself := w.store.get_add_self ⟨t, none⟩
  have hold : ∀ n, w.store.Holds n → (w.store.add ⟨t, none⟩).2.get n = w.store.get n :=
    fun n hn => Store.get_add hn _
  have hfresh : (⟨w.store.size⟩ : NodeId) ∉ s.filters :=
    fun hm => Nat.lt_irrefl _ (hfilters _ hm).1
  have hdesign : t.design = s.head.design := Node.design_withProps hprops
  have hthreads := foldlM_thread (by rw [Store.design, hself, hdesign]; exact houtput) hnodup
    (fun f hf => by rw [hold f (hfilters f hf).1]; exact (hfilters f hf).2) hfold
  have hsize : u.store.size = w.store.size + 1 := hthreads.size.trans (Store.size_add _ _)
  -- the tail comes last and changes none of what is there
  have hget : ∀ n, n.index < w.store.size + 1 →
      (u.store.add ⟨s.tail (last, lastOutput) kind, some ⟨w.store.size⟩⟩).2.get n =
        u.store.get n := fun n hn => Store.get_add (hsize.symm ▸ hn : n.index < u.store.size) _
  have hheads : ∀ n ∈ ⟨w.store.size⟩ :: s.filters, n.index < w.store.size + 1 := by
    refine List.forall_mem_cons.2 ⟨Nat.lt_succ_self _, fun f hf => ?_⟩
    exact Nat.lt_succ_of_lt (hfilters f hf).1
  have hhead := (hget _ (hheads _ List.mem_cons_self)).trans
    ((hthreads.others _ hfresh).trans hself)
  have htail := u.store.get_add_self ⟨s.tail (last, lastOutput) kind, some ⟨w.store.size⟩⟩
  refine ⟨⟨w.store.size⟩, rfl, by rw [hsize], ?_, ?_, ?_, ?_, ?_, ?_, ?_, ?_, ?_⟩
  · rw [Store.size_add, hsize]
  · rw [Store.design, hhead, hdesign]
    rfl
  · rw [hhead]
  · rw [hhead]
    exact Node.keys_withProps hprops
  · intro name port hport
    rw [hhead]
    exact Node.get?_withProps hprops name port hport
  · refine hthreads.chain.imp_of_mem_tail_imp ?_
    intro a b ha hb hfollows
    exact hfollows.congr (hold b (hfilters b hb).1).symm
      (congrArg (fun n => n.design) (hget a (hheads a ha)))
      (hget b (hheads b (List.mem_cons_of_mem _ hb)))
  · have hlast := hget last (hheads last (List.mem_of_getLast? hthreads.getLast))
    obtain ⟨spec, hspec, hspecKind⟩ := Design.exists_of_outputKind hkind
    refine ⟨last, lastOutput, spec, hthreads.getLast, ?_, ?_, ?_, ?_⟩
    · rw [Store.design, hlast]
      exact hthreads.output
    · rw [Store.design, hlast]
      exact hspec
    · rw [htail, hspecKind]
      rfl
    · rw [Store.design, htail, hspecKind]
      rfl
  · rw [htail]
  · intro n hn hnot
    have hne : n.index < w.store.size + 1 := Nat.lt_succ_of_lt hn
    rw [hget n hne, hthreads.others n hnot, hold n hn]

end Stack

/-! ## Calls on the tail -/

/-- At most the sources of one instance differ. -/
structure Store.Rewired (id : NodeId) (before after : Store) : Prop where
  size : after.size = before.size
  others : ∀ other, other ≠ id → after.get other = before.get other
  design : after.design id = before.design id
  delegate : (after.get id).delegate = (before.get id).delegate
  keys : (after.get id).inputs.keys = (before.get id).inputs.keys
  port : ∀ name p, (before.get id).inputs.get? name = some p →
    ∃ source, (after.get id).inputs.get? name = some { p with source := source }

namespace Store

variable {s t u : Store} {id owner : NodeId}

namespace Rewired

theorem refl (id : NodeId) (s : Store) : s.Rewired id s :=
  ⟨rfl, fun _ _ => rfl, rfl, rfl, rfl, fun _ p hp => ⟨p.source, hp⟩⟩

theorem trans (h : s.Rewired id t) (h' : t.Rewired id u) : s.Rewired id u where
  size := h'.size.trans h.size
  others other hne := (h'.others other hne).trans (h.others other hne)
  design := h'.design.trans h.design
  delegate := h'.delegate.trans h.delegate
  keys := h'.keys.trans h.keys
  port name p hp := by
    obtain ⟨source, hsource⟩ := h.port name p hp
    obtain ⟨source', hsource'⟩ := h'.port name _ hsource
    exact ⟨source', hsource'⟩

end Rewired

/-- A wiring changes a source of the owner, if it changes anything. -/
theorem rewired_setInput (howner : s.owner id = owner) {name : String} {source : Source NodeId}
    (h : s.setInput id name source = .ok t) : s.Rewired owner t := by
  obtain ⟨port, hport, -, rfl⟩ := (setInput_eq_ok_iff id name source).1 h
  rw [howner] at hport ⊢
  have hget := get_set (holds_of_port hport) { s.get owner with
    inputs := (s.get owner).inputs.insert name (port.wired source) }
  have hself := (hget owner).trans (if_pos rfl)
  refine ⟨size_set _ _ _, fun other hne => (hget other).trans (if_neg hne), ?_, ?_, ?_, ?_⟩
  · rw [design, hself]
    rfl
  · rw [hself]
  · rw [hself, Table.keys_insert, if_pos (Table.mem_keys_of_get? hport)]
  · intro other p hp
    rw [hself, Table.get?_insert]
    split_ifs with hname
    · rw [← hname, hport] at hp
      cases hp
      exact ⟨some source, rfl⟩
    · exact ⟨p.source, hp⟩

end Store

/-- The workspace after calls that wire inputs of one instance, some of which may fail. -/
def Workspace.setInputs (w : Workspace) (id : NodeId) (calls : List (String × Source NodeId)) :
    Workspace :=
  calls.foldl (fun w call => (Build.setInput id call.1 call.2).after w) w

/-- Calls on a delegating instance reach the one that it delegates to. -/
theorem Workspace.rewired_setInputs {id owner : NodeId} (hlt : owner.index < id.index) :
    ∀ {calls : List (String × Source NodeId)} {w : Workspace},
      (w.store.get id).delegate = some owner → (w.store.get owner).delegate = none →
        w.store.Rewired owner (w.setInputs id calls).store
  | [], w, _, _ => .refl owner w.store
  | (name, source) :: calls, w, hid, howner => by
    have hto : w.store.owner id = owner :=
      (Store.owner_of_some hid hlt).trans (Store.owner_of_none howner)
    have hstep : w.store.Rewired owner ((Build.setInput id name source).after w).store := by
      rw [Build.after_setInput]
      split
      · exact Store.rewired_setInput hto ‹_›
      · exact .refl _ _
    have hne : id ≠ owner := fun he => Nat.lt_irrefl _ (he ▸ hlt)
    refine hstep.trans (rewired_setInputs hlt ?_ (hstep.delegate.trans howner))
    rw [hstep.others id hne, hid]

/-- A successful stack is a chain: a fresh head with the declared ports, the properties applied,
then the filters, each reading what comes before it, then the tail. Calls on the tail, whatever the
names of their inputs, change no more than sources of the head. -/
theorem Stack.assemble_chains {s : Stack} {props : Props} {w w' : Workspace} {tail : NodeId}
    (hnodup : s.filters.Nodup)
    (hfilters : ∀ f ∈ s.filters, w.store.Holds f ∧ (w.store.get f).delegate = none)
    (h : (s.assemble props).Returns w tail w') :
    ∃ head, s.Chains props w.store head tail w'.store ∧
      ∀ calls, w'.store.Rewired head (w'.setInputs tail calls).store ∧
        ∀ n ∈ tail :: s.filters, (w'.setInputs tail calls).store.get n = w'.store.get n := by
  obtain ⟨head, hchains⟩ := chains_of_assemble hnodup hfilters h
  refine ⟨head, hchains, fun calls => ?_⟩
  have hlt : head.index < tail.index := by
    rw [hchains.head_fresh, hchains.tail_fresh]
    exact Nat.lt_succ_self _
  have hrewired : w'.store.Rewired head (w'.setInputs tail calls).store :=
    Workspace.rewired_setInputs hlt hchains.tail_delegate hchains.head_delegate
  refine ⟨hrewired, List.forall_mem_cons.2 ⟨hrewired.others tail ?_, fun f hf =>
    hrewired.others f ?_⟩⟩
  · rintro rfl
    exact Nat.lt_irrefl _ hlt
  · rintro rfl
    have hheld := (hfilters f hf).1
    rw [hchains.head_fresh] at hheld
    exact Nat.lt_irrefl _ hheld

section Layers

open Library

/-- A blend and a sum. -/
def layers : Workspace := ⟨⟨#[⟨mixTemplate, none⟩, ⟨binaryTemplate "Add" .vector3 "+", none⟩]⟩, []⟩

/-- A stack in which the sum comes first. -/
def layered : Stack :=
  Stack.named "Layers"
    |>.input "value" (.ofKind .vector3)
    |>.output "value" .vector3 "in_value"
    |>.filter ⟨1⟩
    |>.filter ⟨0⟩

theorem passes_layers : ∀ f ∈ layered.filters, Stack.Passes (· = .vector3) layers.store f := by
  refine List.forall_mem_cons.2 ⟨?_, List.forall_mem_singleton.2 ?_⟩
  · exact ⟨(by decide : 1 < 2), rfl, ⟨"a", .ofKind .vector3, rfl, rfl, by rintro _ rfl; rfl⟩,
      ⟨"value", ⟨.vector3, some "in_a + in_b"⟩, rfl, rfl, rfl⟩⟩
  · exact ⟨(by decide : 0 < 2), rfl, ⟨"a", .ofKind .vector3, rfl, rfl, by rintro _ rfl; rfl⟩,
      ⟨"value", ⟨.vector3, some "mix(in_a, in_b, in_amount)"⟩, rfl, rfl, rfl⟩⟩

theorem assemble_chains_layers : ∃ tail w', (layered.assemble [("value", .raw "position")]).Returns
      layers tail w' ∧ layered.filters.Nodup ∧
    (∀ f ∈ layered.filters, layers.store.Holds f ∧ (layers.store.get f).delegate = none) ∧
    ∃ head, layered.Chains [("value", .raw "position")] layers.store head tail w'.store ∧
      ∀ calls, ∀ n ∈ tail :: layered.filters,
        (w'.setInputs tail calls).store.get n = w'.store.get n := by
  have hnodup : layered.filters.Nodup := by decide
  have hhead : (layered.head.instantiateWith [("value", .raw "position")]).Returns layers ⟨2⟩ _ :=
    Node.returns_instantiateWith_iff.2 ⟨_, rfl, rfl, rfl, rfl⟩
  obtain ⟨tail, w', h⟩ := Stack.exists_assemble hnodup passes_layers hhead rfl rfl rfl
  have hfilters : ∀ f ∈ layered.filters,
      layers.store.Holds f ∧ (layers.store.get f).delegate = none :=
    fun f hf => ⟨(passes_layers f hf).held, (passes_layers f hf).delegate⟩
  obtain ⟨head, hchains, hcalls⟩ := Stack.assemble_chains hnodup hfilters h
  exact ⟨tail, w', h, hnodup, hfilters, head, hchains, fun calls => (hcalls calls).2⟩

end Layers

end ShaderGraph
