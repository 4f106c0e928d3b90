import ShaderGraph.Proofs.Interruption

/-!
# The inputs that stacks thread into

A filter is wired at its primary input. If it does not declare one, it names the first of its own
inputs, but what is wired is the instance that it leaves its wiring to. The two differ for a filter
that stands for a stack: it names its only input `value` (`Store.StandsFor`), and the head of the
stack is wired. So this goes well exactly if the head has an input of this name
(`Workspace.primary_input_wired`).
-/

namespace ShaderGraph

namespace Store

variable {s t u : Store} {id head owner : NodeId}

/-! ## Instances that stand for stacks -/

/-- The instance has one input and one output and leaves its wiring to one that is wired itself. -/
structure StandsFor (s : Store) (id head : NodeId) : Prop where
  keys : (s.get id).inputs.keys = ["value"]
  primary : (s.design id).primary = none
  output : (s.design id).primaryOutput = some "value"
  held : s.Holds head
  own : (s.get head).delegate = none

/-- Whatever delegates stands for a stack. -/
def Delegating (s : Store) : Prop :=
  ∀ id head, (s.get id).delegate = some head → s.StandsFor id head

theorem holds_of_delegate (h : (s.get id).delegate = some head) : s.Holds id := by
  by_contra hn
  rw [get_of_not_holds hn] at h
  cases h

theorem StandsFor.keeps (h : s.StandsFor id head) (hid : s.Holds id) (hkeeps : s.Keeps t) :
    t.StandsFor id head where
  keys := (hkeeps.keys id hid).trans h.keys
  primary := by rw [hkeeps.design id hid, h.primary]
  output := by rw [hkeeps.design id hid, h.output]
  held := hkeeps.holds h.held
  own := (hkeeps.delegate head h.held).trans h.own

theorem Delegating.add (hs : s.Delegating) {i : Instance}
    (hi : ∀ head, i.delegate = some head → (s.add i).2.StandsFor ⟨s.size⟩ head) :
    (s.add i).2.Delegating := by
  intro id head h
  rcases s.get_add_cases i id with ⟨hid, hget⟩ | ⟨rfl, hget⟩ | hget <;> rw [hget] at h
  · exact (hs id head h).keeps hid (s.keeps_add i)
  · exact hi head h
  · cases h

theorem delegating_lasting : Lasting Delegating where
  own _ _ hs := hs.add nofun
  tail s stack last kind head hs hheld hown := by
    have hself := s.get_add_self ⟨stack.tail last kind, some head⟩
    refine hs.add fun _ h => ?_
    cases h
    refine ⟨?_, ?_, ?_, (s.keeps_add _).holds hheld, by rw [get_add hheld, hown]⟩
    · rw [hself]
      rfl
    · rw [design, hself]
      rfl
    · rw [design, hself]
      rfl
  wired s t id name source hs h := by
    intro id' head hdelegate
    rw [(replaces_of_setInput h).delegates] at hdelegate
    exact (hs id' head hdelegate).keeps (holds_of_delegate hdelegate) (keeps_setInput h)

/-! ## Owners -/

theorem owner_congr (hs : s.Founded) (hdelegate : ∀ id, (t.get id).delegate = (s.get id).delegate)
    (id : NodeId) : t.owner id = s.owner id :=
  ((t.forwards_owner (hs.congr hdelegate) id).unique
    ((s.forwards_owner hs id).congr hdelegate))

/-- Adding an instance of its own changes no chain of delegates. -/
theorem delegate_add {i : Instance} (hi : i.delegate = none) (id : NodeId) :
    ((s.add i).2.get id).delegate = (s.get id).delegate := by
  by_cases hid : s.Holds id
  · rw [get_add hid]
  rw [get_of_not_holds hid]
  rcases s.get_add_cases i id with ⟨hid', -⟩ | ⟨-, hget⟩ | hget
  · exact absurd hid' hid
  · rw [hget, hi]
    rfl
  · rw [hget]

theorem Forwards.holds (h : s.Forwards id owner) (hs : s.Founded) (hid : s.Holds id) :
    s.Holds owner := by
  induction h with
  | own => exact hid
  | delegate hsome _ ih => exact ih (Nat.lt_trans (hs _ _ hsome) hid)

theorem setInput_eq_unknown_iff {name : String} {source : Source NodeId} {node port : String} :
    s.setInput id name source = .error (.unknownInput node port) ↔
      name ∉ (s.get (s.owner id)).inputs.keys ∧ node = (s.get (s.owner id)).name ∧
        port = name := by
  rw [← Table.get?_eq_none_iff]
  unfold setInput
  dsimp only
  split
  · rename_i hport
    simp [hport, eq_comm]
  · rename_i p hport
    refine iff_of_false ?_ (by simp [hport])
    split <;> simp

/-! ## Chains of filters -/

/-- The owner of a filter reads the first output of what comes before the filter, at the input that
the filter names. -/
def Feeds (before after : Store) (previous filter : NodeId) : Prop :=
  ∃ owner primary port output, before.Forwards filter owner ∧
    (before.get filter).primaryInput = some primary ∧
    (before.get owner).inputs.get? primary = some port ∧
    (after.design previous).primaryOutput = some output ∧
    (after.get owner).inputs.get? primary = some (port.wired (.edge previous output))

/-- Whether a filter is fed hangs on what the filter names and on its owner. -/
theorem Feeds.congr {s' t' : Store} {previous filter : NodeId} (h : s.Feeds t previous filter)
    (hdelegate : ∀ id, (s'.get id).delegate = (s.get id).delegate)
    (hprimary : (s'.get filter).primaryInput = (s.get filter).primaryInput)
    (howner : ∀ owner, s.Forwards filter owner →
      s'.get owner = s.get owner ∧ t'.get owner = t.get owner)
    (hdesign : t'.design previous = t.design previous) : s'.Feeds t' previous filter := by
  obtain ⟨owner, primary, port, output, hto, hname, hport, houtput, hwired⟩ := h
  obtain ⟨hbefore, hafter⟩ := howner owner hto
  exact ⟨owner, primary, port, output, hto.congr hdelegate, hprimary.trans hname, hbefore ▸ hport,
    hdesign ▸ houtput, hafter ▸ hwired⟩

/-- Each filter is fed by what comes before it, and only owners of filters are rewired. -/
structure Supplies (filters : List NodeId) (previous : NodeId) (before after : Store) : Prop where
  links : ∃ links, Relinked links before after
  chain : (previous :: filters).IsChain (before.Feeds after)
  others : ∀ id, id ∉ filters.map before.owner → after.get id = before.get id

end Store

namespace Stack

variable {name : String} {w v u : Workspace} {previous next last : NodeId × String}
  {filter : NodeId}

/-- A filter is threaded exactly if it can be wired at the input that it names and has an output of
its own. -/
theorem exists_thread_iff : (∃ next v, (thread name previous filter).Returns w next v) ↔
    ∃ primary t output, (w.store.get filter).primaryInput = some primary ∧
      w.store.setInput filter primary (.edge previous.1 previous.2) = .ok t ∧
      (w.store.design filter).primaryOutput = some output := by
  constructor
  · rintro ⟨next, v, h⟩
    obtain ⟨primary, hprimary, hset, -, houtput⟩ := wired_of_returns h
    exact ⟨primary, v.store, next.2, hprimary, hset, houtput⟩
  · rintro ⟨primary, t, output, hprimary, hset, houtput⟩
    obtain ⟨notices, error, hrun⟩ := run_thread name previous hprimary
    rw [hset, houtput] at hrun
    exact ⟨_, _, hrun⟩

/-- A filter that is threaded is fed. -/
theorem supplies_of_thread (hw : w.store.Founded)
    (hprevious : (w.store.design previous.1).primaryOutput = some previous.2)
    (h : (thread name previous filter).Returns w next v) :
    Store.Supplies [filter] previous.1 w.store v.store := by
  obtain ⟨primary, hprimary, hset, -, -⟩ := wired_of_returns h
  have hlinks := relinked_of_setInput hw hprevious hprimary hset
  have hreplaces := Store.replaces_of_setInput hset
  obtain ⟨port, hport, hwired⟩ := hreplaces.port
  refine ⟨⟨_, hlinks⟩, List.isChain_pair.2 ?_, fun id hid => ?_⟩
  · exact ⟨_, primary, port, previous.2, w.store.forwards_owner hw filter, hprimary, hport,
      (hlinks.design _).symm ▸ hprevious, hwired⟩
  · exact hreplaces.others id fun he => hid (List.mem_singleton.2 he)

end Stack

namespace Store.Supplies

variable {s t u : Store} {previous filter : NodeId} {filters : List NodeId}

theorem cons (hs : s.Founded) (h : Supplies [filter] previous s t)
    (hrest : Supplies filters filter t u) (hnew : s.owner filter ∉ filters.map s.owner) :
    Supplies (filter :: filters) previous s u := by
  obtain ⟨links, hlinks⟩ := h.links
  obtain ⟨links', hlinks'⟩ := hrest.links
  have howner : t.owner = s.owner := funext (owner_congr hs hlinks.delegate)
  have hothers := hrest.others
  rw [howner] at hothers
  refine ⟨⟨_, hlinks.trans hlinks'⟩, List.isChain_cons_cons.2 ⟨?_, ?_⟩, fun id hid => ?_⟩
  · -- the filters after this one leave its owner alone
    refine (List.isChain_pair.1 h.chain).congr (fun _ => rfl) rfl (fun owner hto => ⟨rfl, ?_⟩)
      (hlinks'.design previous)
    rw [← hto.unique (s.forwards_owner hs filter)] at hnew
    exact hothers owner hnew
  · refine hrest.chain.imp_of_mem_tail_imp fun a b _ hb hfeeds => ?_
    refine hfeeds.congr (fun id => (hlinks.delegate id).symm) (hlinks.primaryInput b).symm
      (fun owner hto => ⟨(h.others owner fun hm => hnew ?_).symm, rfl⟩) rfl
    rw [List.map_singleton, List.mem_singleton,
      hto.unique (t.forwards_owner (hs.congr hlinks.delegate) b), howner] at hm
    exact hm ▸ List.mem_map_of_mem hb
  · rw [List.map_cons, List.mem_cons, not_or] at hid
    rw [hothers id hid.2]
    exact h.others id fun he => hid.1 (List.mem_singleton.1 he)

end Store.Supplies

theorem Build.fails_setInput_iff {w : Workspace} {id : NodeId} {name : String}
    {source : Source NodeId} {e : NodeError} :
    (setInput id name source).Fails w e ↔ w.store.setInput id name source = .error e := by
  unfold Fails
  rw [run_setInput]
  rcases w.store.setInput id name source with e' | t <;> simp

namespace Stack

variable {name : String} {w v u : Workspace}

theorem supplies_of_foldlM {last : NodeId × String} : ∀ {filters : List NodeId} {w : Workspace}
    {previous : NodeId × String}, w.store.Founded →
    (w.store.design previous.1).primaryOutput = some previous.2 →
    (filters.map w.store.owner).Nodup → (filters.foldlM (thread name) previous).Returns w last u →
      Store.Supplies filters previous.1 w.store u.store
  | [], w, previous, _, _, _, h => by
    obtain ⟨-, rfl⟩ := Build.returns_pure_iff.1 h
    exact ⟨⟨[], .refl _⟩, .singleton _, fun _ _ => rfl⟩
  | filter :: filters, w, previous, hw, hprevious, hnodup, h => by
    obtain ⟨hnew, hnodup⟩ := List.nodup_cons.1 hnodup
    rw [List.foldlM_cons, Build.returns_bind_iff] at h
    obtain ⟨next, v, hstep, hrest⟩ := h
    obtain ⟨hlinks, hnext, houtput⟩ := relinked_of_returns hw hprevious hstep
    have howner : v.store.owner = w.store.owner := funext (Store.owner_congr hw hlinks.delegate)
    have hsupplies := supplies_of_foldlM (hw.congr hlinks.delegate) houtput (howner ▸ hnodup) hrest
    rw [hnext] at hsupplies
    exact .cons hw (supplies_of_thread hw hprevious hstep) hsupplies hnew

/-- Filters that are threaded name inputs of their owners. -/
theorem named_of_foldlM {last : NodeId × String} : ∀ {filters : List NodeId} {w : Workspace}
    {previous : NodeId × String}, w.store.Founded →
    (w.store.design previous.1).primaryOutput = some previous.2 →
    (filters.foldlM (thread name) previous).Returns w last u → ∀ f ∈ filters, ∃ primary,
      (w.store.get f).primaryInput = some primary ∧
        primary ∈ (w.store.get (w.store.owner f)).inputs.keys
  | [], _, _, _, _, _ => nofun
  | filter :: filters, w, previous, hw, hprevious, h => by
    rw [List.foldlM_cons, Build.returns_bind_iff] at h
    obtain ⟨next, v, hstep, hrest⟩ := h
    obtain ⟨hlinks, -, houtput⟩ := relinked_of_returns hw hprevious hstep
    obtain ⟨primary, hprimary, hset, -, -⟩ := wired_of_returns hstep
    obtain ⟨port, hport, -, -⟩ := (Store.setInput_eq_ok_iff _ _ _).1 hset
    refine List.forall_mem_cons.2
      ⟨⟨primary, hprimary, Table.mem_keys_of_get? hport⟩, fun f hf => ?_⟩
    have hnamed := named_of_foldlM (hw.congr hlinks.delegate) houtput hrest f hf
    rw [hlinks.primaryInput, Store.owner_congr hw hlinks.delegate, hlinks.keys] at hnamed
    exact hnamed

variable {s : Stack} {props : Props} {tail : NodeId}

/-- What an assembly threads its filters in: the workspace it started in, with a head. -/
structure Headed (before after : Store) : Prop where
  founded : after.Founded
  size : after.size = before.size + 1
  get : ∀ id, before.Holds id → after.get id = before.get id
  delegate : ∀ id, (after.get id).delegate = (before.get id).delegate

/-- A stack that is assembled has threaded its filters behind its head, and then adds its tail. -/
theorem exists_threading (hw : w.store.Founded) (h : (s.assemble props).Returns w tail v) :
    ∃ start output last u i, Headed w.store start.store ∧
      (start.store.design ⟨w.store.size⟩).primaryOutput = some output ∧
      (s.filters.foldlM (thread s.name) (⟨w.store.size⟩, output)).Returns start last u ∧
      v.store = (u.store.add i).2 := by
  obtain ⟨head, start, output, last, u, kind, hhead, houtput, hfold, -, -, rfl⟩ :=
    assemble_returns_iff.1 h
  obtain ⟨hfounded, hfirst, hget⟩ := head_of_returns hw hhead
  obtain ⟨t, -, -, rfl, rfl⟩ := Node.returns_instantiateWith_iff.1 hhead
  exact ⟨_, output, last, u, _, ⟨hfounded, Store.size_add _ _, hget, Store.delegate_add rfl⟩,
    hfirst.trans houtput, hfold, rfl⟩

/-- A filter of a stack that is assembled names an input of its owner. -/
theorem named_of_assemble (hw : w.store.Founded) (h : (s.assemble props).Returns w tail v)
    {f : NodeId} (hf : f ∈ s.filters) (hheld : w.store.Holds f) : ∃ primary,
      (w.store.get f).primaryInput = some primary ∧
        primary ∈ (w.store.get (w.store.owner f)).inputs.keys := by
  obtain ⟨start, output, last, u, i, hheaded, houtput, hfold, -⟩ := exists_threading hw h
  have hnamed := named_of_foldlM hheaded.founded houtput hfold f hf
  have howner := (w.store.forwards_owner hw f).holds hw hheld
  rw [Store.owner_congr hw hheaded.delegate, hheaded.get f hheld, hheaded.get _ howner] at hnamed
  exact hnamed

/-- The filters of a stack that is assembled are fed, one after the other, if no two of them leave
their wiring to one instance. -/
theorem feeds_of_assemble (hw : w.store.Founded) (hheld : ∀ f ∈ s.filters, w.store.Holds f)
    (hnodup : (s.filters.map w.store.owner).Nodup) (h : (s.assemble props).Returns w tail v) :
    (⟨w.store.size⟩ :: s.filters).IsChain (w.store.Feeds v.store) := by
  obtain ⟨start, output, last, u, i, hheaded, houtput, hfold, hv⟩ := exists_threading hw h
  have howner : start.store.owner = w.store.owner :=
    funext (Store.owner_congr hw hheaded.delegate)
  have hsupplies := supplies_of_foldlM hheaded.founded houtput (howner ▸ hnodup) hfold
  obtain ⟨links, hlinks⟩ := hsupplies.links
  -- the tail comes last and changes none of what is there
  have hsize : u.store.size = w.store.size + 1 := hlinks.size.trans hheaded.size
  have hget : ∀ n, n.index < w.store.size + 1 → v.store.get n = u.store.get n := fun n hn => by
    rw [hv]
    exact Store.get_add (hsize ▸ hn : n.index < u.store.size) _
  have hheads : ∀ n ∈ ⟨w.store.size⟩ :: s.filters, n.index < w.store.size + 1 :=
    List.forall_mem_cons.2 ⟨Nat.lt_succ_self _, fun f hf => Nat.lt_succ_of_lt (hheld f hf)⟩
  refine hsupplies.chain.imp_of_mem_tail_imp fun a b ha hb hfeeds => ?_
  have hb := hheld b hb
  refine hfeeds.congr (fun id => (hheaded.delegate id).symm) (by rw [hheaded.get b hb])
    (fun owner hto => ?_) (congrArg (fun n => n.design) (hget a (hheads a ha)))
  have hkept := (hto.congr fun id => (hheaded.delegate id).symm).holds hw hb
  exact ⟨(hheaded.get owner hkept).symm, hget owner (Nat.lt_succ_of_lt hkept)⟩

end Stack

/-- A member of a chain is related to what comes before it. -/
theorem exists_before_of_isChain {α : Type} {R : α → α → Prop} {a b : α} {l : List α}
    (h : (a :: l).IsChain R) (hb : b ∈ l) :
    ∃ before previous after, a :: l = before ++ previous :: b :: after ∧ R previous b := by
  obtain ⟨front, after, rfl⟩ := List.append_of_mem hb
  obtain ⟨before, previous, hlast⟩ :=
    (a :: front).eq_nil_or_concat.resolve_left (List.cons_ne_nil _ _)
  have hsplit : a :: (front ++ b :: after) = before ++ previous :: b :: after := by
    rw [← List.cons_append, hlast, List.concat_eq_append, List.append_assoc]
    rfl
  rw [hsplit] at h
  exact ⟨before, previous, after, hsplit, (List.isChain_append_cons_cons.1 h).2.1⟩

/-- An instance that declares no primary input names an input of its own if it owns its wiring, and
`value` if it stands for a stack. -/
theorem Store.Delegating.primaryInput {s : Store} (hs : s.Delegating) (hfounded : s.Founded)
    {id : NodeId} {name : String} (hdeclared : (s.design id).primary = none)
    (hname : (s.get id).primaryInput = some name) :
    s.owner id = id ∧ name ∈ (s.get id).inputs.keys ∨
      s.owner id ≠ id ∧ (s.get id).delegate = some (s.owner id) ∧ name = "value" := by
  have hfirst : (s.get id).inputs.keys.head? = some name := by
    have hnone : (s.get id).design.primary = none := hdeclared
    rw [Node.primaryInput, hnone] at hname
    exact hname
  rcases hdelegate : (s.get id).delegate with _ | head
  · exact .inl ⟨owner_of_none hdelegate, List.mem_of_head? hfirst⟩
  · have hstands := hs id head hdelegate
    have hlt := hfounded id head hdelegate
    have howner : s.owner id = head :=
      (owner_of_some hdelegate hlt).trans (owner_of_none hstands.own)
    rw [hstands.keys] at hfirst
    refine .inr ⟨fun he => Nat.lt_irrefl _ (he ▸ howner ▸ hlt), ?_, (Option.some.inj hfirst).symm⟩
    rw [howner]

/-- In every workspace that calls can make, a primary input that is not declared is unknown to the
call that wires it exactly if the instance stands for a stack whose head has no input `value`. A
stack can thread a value through the instance exactly if its owner has an input of this name which
takes the value, and then, if no other filter of the stack has this owner, the input reads what
comes before the instance. -/
theorem Workspace.primary_input_wired {w : Workspace} (hw : Workspace.Evolves default w)
    {id : NodeId} {name : String} (hdeclared : (w.store.design id).primary = none)
    (hname : (w.store.get id).primaryInput = some name) :
    ∃ owner, w.store.Forwards id owner ∧
      (owner = id ∨ (w.store.get id).delegate = some owner ∧ name = "value") ∧
      (∀ source node port, (Build.setInput id name source).Fails w (.unknownInput node port) ↔
        owner ≠ id ∧ "value" ∉ (w.store.get owner).inputs.keys ∧
          node = (w.store.get owner).name ∧ port = "value") ∧
      (∀ stack previous, (∃ next v, (Stack.thread stack previous id).Returns w next v) ↔
        ∃ output port, (w.store.design id).primaryOutput = some output ∧
          (w.store.get owner).inputs.get? name = some port ∧
          (port.wired (.edge previous.1 previous.2)).validate w.store.design = .ok ()) ∧
      ∀ (s : Stack) (props : Props) tail v, (s.assemble props).Returns w tail v → id ∈ s.filters →
        name ∈ (w.store.get owner).inputs.keys ∧
          ((∀ f ∈ s.filters, w.store.Holds f) → (s.filters.map w.store.owner).Nodup →
            ∃ before previous after,
              ⟨w.store.size⟩ :: s.filters = before ++ previous :: id :: after ∧
              w.store.Feeds v.store previous id) := by
  have hempty : ∀ id head, ((default : Workspace).store.get id).delegate ≠ some head := by
    intro id head h
    exact Nat.not_lt_zero _ (Store.holds_of_delegate h)
  have hfounded := hw.founded fun id head h => absurd h (hempty id head)
  have hdelegating := hw.preserves Store.delegating_lasting fun id head h =>
    absurd h (hempty id head)
  have hkind := hdelegating.primaryInput hfounded hdeclared hname
  refine ⟨_, w.store.forwards_owner hfounded id, ?_, ?_, ?_, ?_⟩
  · exact hkind.imp And.left And.right
  · intro source node port
    rw [Build.fails_setInput_iff, Store.setInput_eq_unknown_iff]
    rcases hkind with ⟨hself, hkey⟩ | ⟨hne, -, rfl⟩
    · rw [hself]
      exact iff_of_false (fun h => h.1 hkey) fun h => h.1 rfl
    · exact (and_iff_right hne).symm
  · intro stack previous
    rw [Stack.exists_thread_iff]
    simp only [hname, Option.some.injEq, exists_and_left, exists_eq_left', Store.setInput_eq_ok_iff]
    constructor
    · rintro ⟨_, ⟨port, hport, hvalid, -⟩, output, houtput⟩
      exact ⟨output, houtput, port, hport, hvalid⟩
    · rintro ⟨output, houtput, port, hport, hvalid⟩
      exact ⟨_, ⟨port, hport, hvalid, rfl⟩, output, houtput⟩
  · intro s props tail v h hid
    constructor
    · have hheld : w.store.Holds id := by
        by_contra hout
        rw [Store.get_of_not_holds hout] at hname
        cases hname
      obtain ⟨primary, hprimary, hkey⟩ := Stack.named_of_assemble hfounded h hid hheld
      rw [hname] at hprimary
      cases hprimary
      exact hkey
    · intro hheld hnodup
      exact exists_before_of_isChain (Stack.feeds_of_assemble hfounded hheld hnodup h) hid

section Enclosed

open Library

/-- A sum of numbers in a stack with an input of some name. -/
def enclosed (input : String) : Workspace :=
  let stack := Stack.named "Inner"
    |>.input input (.ofKind .float)
    |>.output "value" .float ("in_" ++ input)
    |>.filter ⟨0⟩
  (stack.assemble []).after ((binaryTemplate "Add" .float "+").instantiate.after default)

theorem evolves_enclosed (input : String) : Workspace.Evolves default (enclosed input) :=
  .trans (.instantiate _ _) (.assemble _ _ _)

/-- A stack around the one that stands there. -/
def around : Stack :=
  Stack.named "Outer"
    |>.input "value" (.ofKind .float)
    |>.output "value" .float "in_value"
    |>.filter ⟨2⟩

theorem primary_input_wired_enclosed : Workspace.Evolves default (enclosed "value") ∧
    ((enclosed "value").store.design ⟨2⟩).primary = none ∧
    ((enclosed "value").store.get ⟨2⟩).primaryInput = some "value" ∧
    (∀ source node port,
      ¬ (Build.setInput ⟨2⟩ "value" source).Fails (enclosed "value") (.unknownInput node port)) ∧
    ∃ tail v, (around.assemble []).Returns (enclosed "value") tail v ∧
      (enclosed "value").store.Feeds v.store ⟨3⟩ ⟨2⟩ := by
  have hdeclared : ((enclosed "value").store.design ⟨2⟩).primary = none := by decide +kernel
  have hname : ((enclosed "value").store.get ⟨2⟩).primaryInput = some "value" := by decide +kernel
  have howner : ((enclosed "value").store.get ⟨2⟩).delegate = some ⟨1⟩ ∧
      ((enclosed "value").store.get ⟨1⟩).delegate = none ∧
      "value" ∈ ((enclosed "value").store.get ⟨1⟩).inputs.keys := by decide +kernel
  obtain ⟨owner, hto, -, hfails, -, hassembled⟩ :=
    Workspace.primary_input_wired (evolves_enclosed "value") hdeclared hname
  obtain rfl := (Store.Forwards.delegate howner.1 (.own howner.2.1)).unique hto
  refine ⟨evolves_enclosed "value", hdeclared, hname, fun source node port h => ?_, ?_⟩
  · exact ((hfails source node port).1 h).2.1 howner.2.2
  have hok : ((around.assemble []).run.run (enclosed "value")).1.toBool = true := by decide +kernel
  obtain ⟨tail, hrun⟩ := exists_of_toBool hok
  have hreturns := Build.returns_of_run hrun
  have hsize : (enclosed "value").store.size = 3 := by decide +kernel
  have hheld : ∀ f ∈ around.filters, (enclosed "value").store.Holds f := by
    refine List.forall_mem_singleton.2 ?_
    rw [Store.Holds, hsize]
    exact Nat.lt_succ_self 2
  obtain ⟨before, previous, after, hsplit, hfeeds⟩ :=
    (hassembled around [] tail _ hreturns (List.mem_singleton_self _)).2 hheld
      (List.nodup_singleton _)
  rw [hsize] at hsplit
  change ([⟨3⟩, ⟨2⟩] : List NodeId) = _ at hsplit
  rcases before with _ | ⟨first, before⟩
  · cases hsplit
    exact ⟨tail, _, hreturns, hfeeds⟩
  · have hlength := congrArg List.length hsplit
    simp only [List.length_append, List.length_cons, List.length_nil] at hlength
    omega

/-- A stack whose input has another name cannot be a filter. -/
theorem primary_input_unknown : Workspace.Evolves default (enclosed "color") ∧
    ((enclosed "color").store.design ⟨2⟩).primary = none ∧
    ((enclosed "color").store.get ⟨2⟩).primaryInput = some "value" ∧
    (∀ source, (Build.setInput ⟨2⟩ "value" source).Fails (enclosed "color")
      (.unknownInput "Inner" "value")) ∧
    (around.assemble []).Fails (enclosed "color") (.unknownInput "Inner" "value") := by
  refine ⟨evolves_enclosed "color", by decide +kernel, by decide +kernel, fun source => ?_, ?_⟩
  · rw [Build.fails_setInput_iff, Store.setInput_eq_unknown_iff]
    decide +kernel
  · unfold Build.Fails
    decide +kernel

end Enclosed

end ShaderGraph
