import ShaderGraph.Proofs.Indentation
import ShaderGraph.Proofs.Isolation

/-!
# Display names

The display name of a node stands in its identifier by its stem and in the comment in front of its
block as it is. So graphs that differ in display names with the same stems compile or fail together,
and their sources have the same lines apart from comments, if what the names have behind their
first newline is the same (`Store.names_left_out`): a comment ends with its line, and the rest of
such a name stands in the source as code.
-/

namespace ShaderGraph

/-! ## Lines of code -/

namespace Glsl

/-- A line that is a comment from its first character that is no blank. -/
def isCommentLine (line : List Char) : Bool := ['/', '/'].isPrefixOf (line.dropWhile isBlank)

/-- The lines of a text that are no comments. -/
def codeLines (text : List Char) : List (List Char) :=
  (lines text).filter fun line => !isCommentLine line

/-- What a text has from its first newline on. -/
def fromNewline (text : List Char) : List Char := text.dropWhile (· ≠ '\n')

theorem lines_cons {c : Char} (hc : c ≠ '\n') (cs : List Char) :
    ∃ line more, lines cs = line :: more ∧ lines (c :: cs) = (c :: line) :: more := by
  rcases hlines : lines cs with _ | ⟨line, more⟩
  · have h := flatMap_lines cs
    rw [hlines] at h
    cases h
  · refine ⟨line, more, rfl, ?_⟩
    rw [lines, if_neg hc, hlines]

theorem lines_append : ∀ cs cs' : List Char, lines (cs ++ '\n' :: cs') = lines cs ++ lines cs'
  | [], _ => rfl
  | c :: cs, cs' => by
    by_cases hc : c = '\n'
    · rw [List.cons_append, lines, lines, if_pos hc, if_pos hc, lines_append cs cs',
        List.cons_append]
    · obtain ⟨line, more, hlines, hcons⟩ := lines_cons hc cs
      obtain ⟨line', more', hlines', hcons'⟩ := lines_cons hc (cs ++ '\n' :: cs')
      rw [lines_append cs cs', hlines, List.cons_append] at hlines'
      cases hlines'
      rw [List.cons_append, hcons', hcons, List.cons_append]

theorem lines_of_notMem : ∀ {cs : List Char}, '\n' ∉ cs → lines cs = [cs]
  | [], _ => rfl
  | c :: cs, h => by
    rw [List.mem_cons, not_or] at h
    obtain ⟨line, more, hlines, hcons⟩ := lines_cons (Ne.symm h.1) cs
    rw [lines_of_notMem h.2] at hlines
    cases hlines
    exact hcons

theorem codeLines_append (cs cs' : List Char) :
    codeLines (cs ++ '\n' :: cs') = codeLines cs ++ codeLines cs' := by
  rw [codeLines, lines_append, List.filter_append]
  rfl

/-- A comment is code from its first newline on. -/
theorem codeLines_comment (text : List Char) :
    codeLines ("    // ".toList ++ text) = codeLines ("    // ".toList ++ fromNewline text) := by
  have hnone : ∀ cs, '\n' ∉ cs → codeLines ("    // ".toList ++ cs) = [] := by
    intro cs hcs
    rw [codeLines, lines_of_notMem (by simpa using hcs)]
    rfl
  have hfront : '\n' ∉ text.takeWhile (· ≠ '\n') := by
    intro h
    simpa using List.all_eq_true.1 List.all_takeWhile _ h
  have hsplit := List.takeWhile_append_dropWhile (p := (· ≠ '\n')) (l := text)
  unfold fromNewline
  rcases hrest : text.dropWhile (· ≠ '\n') with _ | ⟨c, cs⟩
  · rw [hrest, List.append_nil] at hsplit
    rw [hnone _ (hsplit ▸ hfront), hnone [] (by simp)]
  · obtain rfl : c = '\n' := by
      have := List.head?_dropWhile_not (· ≠ '\n') text
      rw [hrest] at this
      simpa using this
    have hempty := hnone [] (by simp)
    rw [List.append_nil] at hempty
    rw [← hsplit, hrest, ← List.append_assoc, codeLines_append, codeLines_append, hnone _ hfront,
      hempty]

end Glsl

/-- The statements are the same, or comments that are the same from their first newline on. -/
inductive Statement.SameCode : Statement → Statement → Prop
  | same (st : Statement) : SameCode st st
  | comment {text text' : String}
    (h : Glsl.fromNewline text'.toList = Glsl.fromNewline text.toList) :
    SameCode (.comment text) (.comment text')

namespace StageSource

open Glsl

theorem written_cons (st : Statement) (l : List Statement) :
    written (st :: l) = written [st] ++ written l := by
  rw [← List.singleton_append, written_append]

/-- The lines of a statement end with a newline. -/
theorem exists_written (st : Statement) : ∃ cs, (written [st]).toList = cs ++ ['\n'] := by
  obtain ⟨front, last, hlines⟩ : ∃ front last, st.lines = front ++ [last] := by
    cases st with
    | block code => exact ⟨_, "\x7d", rfl⟩
    | comment text => exact ⟨[], _, rfl⟩
    | declare type name init => exact ⟨[], _, rfl⟩
    | assign target expr => exact ⟨[], _, rfl⟩
  refine ⟨(String.join (front.map fun line => indent ++ line ++ "\n") ++ indent ++ last).toList, ?_⟩
  rw [written, List.flatMap_singleton, hlines]
  simp [String.join_append]

theorem toList_written_comment (text : String) :
    (written [.comment text]).toList = "    // ".toList ++ text.toList ++ ['\n'] := by
  rw [written, List.flatMap_singleton]
  simp [Statement.lines, indent]

theorem codeLines_written {l l' : List Statement} (h : List.Forall₂ Statement.SameCode l l')
    (rest : List Char) :
    codeLines ((written l').toList ++ rest) = codeLines ((written l).toList ++ rest) := by
  induction h with
  | nil => rfl
  | @cons st st' l l' hst _ ih =>
    rw [written_cons st, written_cons st', String.toList_append, String.toList_append,
      List.append_assoc, List.append_assoc]
    cases hst with
    | same =>
      obtain ⟨cs, hcs⟩ := exists_written st
      rw [hcs, List.append_assoc, List.append_assoc, List.singleton_append, List.singleton_append,
        codeLines_append, codeLines_append, ih]
    | @comment text text' htext =>
      rw [toList_written_comment, toList_written_comment, List.append_assoc _ ['\n'],
        List.append_assoc _ ['\n'], List.singleton_append, List.singleton_append,
        codeLines_append, codeLines_append, ih, codeLines_comment, htext, ← codeLines_comment]

/-- Sources with the same opening and statements with the same code have the same lines of code. -/
theorem codeLines_render {s s' : StageSource} (hopening : s'.opening = s.opening)
    (h : List.Forall₂ Statement.SameCode s.statements s'.statements) :
    codeLines s'.render.toList = codeLines s.render.toList := by
  obtain ⟨cs, hcs⟩ : ∃ cs, s.opening.toList = cs ++ ['\n'] := by
    refine ⟨(renderSection (s.uniforms.map uniformLine) ++
      renderSection (s.varyings.map varyingLine) ++ String.join (s.headers.map (· ++ "\n\n")) ++
      "void main() \x7b").toList, ?_⟩
    simp [opening]
  simp only [render_eq, hopening, String.toList_append, hcs, List.append_assoc,
    List.cons_append, List.nil_append, codeLines_append, codeLines_written h]

end StageSource

theorem Glsl.fromNewline_append {cs cs' : List Char} (h : fromNewline cs' = fromNewline cs)
    (rest : List Char) : fromNewline (cs' ++ rest) = fromNewline (cs ++ rest) := by
  unfold fromNewline at h ⊢
  rw [List.dropWhile_append, List.dropWhile_append, h]

/-- What a traversal makes of the members of a list is related to what another one makes of them. -/
theorem forall₂_of_mapM {ε α β γ : Type} {R : β → γ → Prop} {f : α → Except ε β}
    {g : α → Except ε γ} : ∀ {l : List α} {r : List β} {r' : List γ}, l.mapM f = .ok r →
      l.mapM g = .ok r' → (∀ a ∈ l, ∀ b c, f a = .ok b → g a = .ok c → R b c) →
      List.Forall₂ R r r'
  | [], _, _, h, h', _ => by
    cases h
    cases h'
    exact .nil
  | a :: l, _, _, h, h', hR => by
    rw [mapM_eq_ok_iff, List.forall₂_cons_left_iff] at h h'
    obtain ⟨b, r, hb, hr, rfl⟩ := h
    obtain ⟨c, r', hc, hr', rfl⟩ := h'
    obtain ⟨ha, hl⟩ := List.forall_mem_cons.1 hR
    exact .cons (ha b c hb hc)
      (forall₂_of_mapM ((mapM_eq_ok_iff _ _ _).2 hr) ((mapM_eq_ok_iff _ _ _).2 hr') hl)

/-! ## Other names -/

/-- The node with another display name. -/
def Node.renamed {ρ : Type} (n : Node ρ) (name : String) : Node ρ := { n with design.name := name }

/-- Whether a port fits its source does not hang on the names of producers. -/
theorem Port.Fits.of_outputs {ρ : Type} {design design' : ρ → Design} {p : Port ρ}
    (h : p.Fits design) (houtputs : ∀ r, (design' r).outputs = (design r).outputs) :
    p.Fits design' := by
  rcases h with ⟨hsome, h⟩ | h
  · refine .inl ⟨hsome, ?_⟩
    rcases hs : p.source with _ | ⟨v | expr | ⟨producer, output⟩⟩
    · simp only [validate, hs]
    · simpa only [validate, hs] using h
    · simp only [validate, hs]
    · obtain ⟨spec, hspec, haccepts⟩ :=
        Fits.edge (.inl ⟨hsome, h⟩) ((p.edge?_eq_some_iff _ _).2 hs)
      rw [← houtputs] at hspec
      simp only [validate, hs, Design.outputKind_eq_ok _ hspec]
      exact (accept_eq_ok_iff _ _).2 haccepts
  · exact .inr h

/-- The diagrams have the same numbers, identifiers and order, and nodes that differ in their
display names only. -/
structure Diagram.SameButNames (d d' : Diagram) : Prop where
  length : d'.entries.length = d.entries.length
  order : d'.order = d.order
  ident : ∀ i, (d'.entry i).ident = (d.entry i).ident
  node : ∀ i, (d'.entry i).node = (d.entry i).node.renamed (d'.entry i).node.name

namespace Diagram.SameButNames

variable {d d' : Diagram} (h : d.SameButNames d')
include h

theorem symm : d'.SameButNames d := by
  refine ⟨h.length.symm, h.order.symm, fun i => (h.ident i).symm, fun i => ?_⟩
  rw [h.node i]
  rfl

theorem inputs (i : Nat) : (d'.entry i).node.inputs = (d.entry i).node.inputs := by
  rw [h.node i]
  rfl

theorem outputs (i : Nat) : (d'.design i).outputs = (d.design i).outputs := by
  rw [Diagram.design, h.node i]
  rfl

theorem slots (i : Nat) : (d'.design i).slots = (d.design i).slots := by
  rw [Diagram.design, h.node i]
  rfl

theorem code (i : Nat) (stage : Stage) : (d'.design i).code stage = (d.design i).code stage := by
  rw [Diagram.design, h.node i]
  rfl

theorem outline : d.SameOutline d' := by
  refine ⟨h.length, h.order, h.ident, fun i => ?_⟩
  rw [h.node i]
  exact ⟨rfl, rfl, rfl, rfl, fun _ => rfl, fun _ => rfl, rfl⟩

theorem portsFit (hp : (Plan.ofDiagram d).PortsFit) : (Plan.ofDiagram d').PortsFit := by
  intro i hi name port hm
  change i < d'.entries.length at hi
  change (name, port) ∈ (d'.entry i).node.inputs.entries at hm
  rw [h.length] at hi
  rw [h.inputs] at hm
  exact (hp i hi name port hm).of_outputs h.outputs

theorem wiredSlots_eq : (Plan.ofDiagram d').wiredSlots = (Plan.ofDiagram d).wiredSlots := by
  have hinputs : (Plan.ofDiagram d').diagram.root.node.inputs =
      (Plan.ofDiagram d).diagram.root.node.inputs := h.inputs 0
  have hslots : (Plan.ofDiagram d').diagram.root.node.design.slots =
      (Plan.ofDiagram d).diagram.root.node.design.slots := h.slots 0
  simp only [Plan.wiredSlots, hinputs, hslots]

theorem emittable {i : Nat} {stage : Stage} (he : (d.entry i).node.Emittable stage) :
    (d'.entry i).node.Emittable stage := by
  rw [h.node i]
  exact he

variable (hd : d.WellFormed) (hd' : d'.WellFormed)
include hd hd'

/-- Nothing that is checked or looked up hangs on a display name. -/
theorem compiles (hc : ∃ shader, (Plan.ofDiagram d).compile = .ok shader) :
    ∃ shader, (Plan.ofDiagram d').compile = .ok shader := by
  obtain ⟨shader, hc⟩ := hc
  have hp := Plan.portsFit_of_compile hc
  have hp' := h.portsFit hp
  have hemit : ∀ stage, ∃ source, (Plan.ofDiagram d').emit stage = .ok source := by
    intro stage
    have hnodes := (Plan.emit_isOk_iff hp hd stage).1 ⟨_, Plan.emit_of_compile hc stage⟩
    refine (Plan.emit_isOk_iff hp' hd' stage).2 fun i hi => h.emittable (hnodes i ?_)
    rwa [h.outline.stageOrder_eq] at hi
  obtain ⟨vertex, hv⟩ := hemit .vertex
  obtain ⟨fragment, hf⟩ := hemit .fragment
  obtain ⟨-, hslots, -⟩ := (Plan.compile_eq_ok_iff _ _).1 hc
  refine ⟨⟨vertex, fragment, _⟩, (Plan.compile_eq_ok_iff _ _).2
    ⟨(Plan.checkPorts_eq_ok_iff _).2 hp', ?_, hv, hf, rfl⟩⟩
  rw [Plan.checkSlots_eq_ok_iff, Plan.SlotsApart] at hslots ⊢
  rwa [h.wiredSlots_eq]

variable (hp : (Plan.ofDiagram d).PortsFit)
include hp

theorem reference_eq (stage : Stage) {i : Nat} (hi : i < d.entries.length) {name : String}
    {port : Port Nat} (hm : (name, port) ∈ (d.entry i).node.inputs.entries) {producer : Nat}
    {output : String} (hs : port.source = some (.edge producer output)) (e e' : Entry) :
    (Plan.ofDiagram d').reference stage e' name port producer output =
      (Plan.ofDiagram d).reference stage e name port producer output := by
  have he := (port.edge?_eq_some_iff _ _).2 hs
  obtain ⟨spec, hspec, -, -, href⟩ := hp.exists_reference hd hi hm he
  obtain ⟨spec', hspec', -, -, href'⟩ :=
    (h.portsFit hp).exists_reference hd' (h.length ▸ hi) ((h.inputs i).symm ▸ hm) he
  have hspecs : spec' = spec := by
    have : (d'.design producer).outputs.get? output = some spec' := hspec'
    rw [h.outputs] at this
    exact Option.some.inj (this.symm.trans hspec)
  have hident : ((Plan.ofDiagram d').diagram.entry producer).ident =
      ((Plan.ofDiagram d).diagram.entry producer).ident := h.ident producer
  obtain ⟨-, hout, hvar, -⟩ := Entry.names_congr hident
  have hvariable : (Plan.ofDiagram d').variableOf stage producer output =
      (Plan.ofDiagram d).variableOf stage producer output := by
    simp only [Plan.variableOf, h.outline.share_eq, hout, hvar]
  rw [href, href', hspecs, hvariable]

theorem wire_eq (stage : Stage) {i : Nat} (hi : i < d.entries.length) {name : String}
    {port : Port Nat} (hm : (name, port) ∈ (d.entry i).node.inputs.entries) :
    (Plan.ofDiagram d').wire stage (d'.entry i) name port =
      (Plan.ofDiagram d).wire stage (d.entry i) name port := by
  have hname := (Entry.names_congr (h.ident i)).1
  rcases hs : port.source with _ | ⟨v | expr | ⟨producer, output⟩⟩ <;>
    simp only [Plan.wire, hs, hname, h.ident]
  rw [h.reference_eq hd hd' hp stage hi hm hs (d.entry i)]

theorem emitSlot_eq (stage : Stage) (name : String) (slot : Slot) :
    (Plan.ofDiagram d').emitSlot stage name slot =
      (Plan.ofDiagram d).emitSlot stage name slot := by
  have hinputs : (Plan.ofDiagram d').diagram.root.node.inputs =
      (Plan.ofDiagram d).diagram.root.node.inputs := h.inputs 0
  simp only [Plan.emitSlot, hinputs]
  rcases hget : (Plan.ofDiagram d).diagram.root.node.inputs.get? name with _ | port
  · rfl
  have hm := (Table.get?_eq_some_iff _ _ _).1 hget
  have hvalue : (Plan.ofDiagram d').slotValue stage name port =
      (Plan.ofDiagram d).slotValue stage name port := by
    rcases hs : port.source with _ | ⟨v | expr | ⟨producer, output⟩⟩ <;>
      simp only [Plan.slotValue, hs]
    rw [h.reference_eq hd hd' hp stage hd.nonempty hm hs]
  simp only [hvalue]

/-- The block of a node is the same behind the comment. -/
theorem sameCode_of_emitNode {stage : Stage} {i : Nat} (hi : i < d.entries.length)
    (hname : Glsl.fromNewline (d'.entry i).node.name.toList =
      Glsl.fromNewline (d.entry i).node.name.toList) {l l' : List Statement}
    (hl : (Plan.ofDiagram d).emitNode stage i = .ok l)
    (hl' : (Plan.ofDiagram d').emitNode stage i = .ok l') :
    List.Forall₂ Statement.SameCode l l' := by
  have hdiagram : ∀ d : Diagram, (Plan.ofDiagram d).diagram = d := fun _ => rfl
  obtain ⟨wires, outputs, scope, hw, ho, hs, rfl⟩ := (Plan.emitNode_eq_ok_iff _ _ _).1 hl
  obtain ⟨wires', outputs', scope', hw', ho', hs', rfl⟩ := (Plan.emitNode_eq_ok_iff _ _ _).1 hl'
  simp only [hdiagram] at hw ho hs hw' ho' hs' ⊢
  have hwires : (d.entry i).node.inputs.entries.mapM
      (fun input => (Plan.ofDiagram d').wire stage (d'.entry i) input.1 input.2) = .ok wires := by
    rw [← hw]
    refine mapM_congr_forall₂ (R := Eq) (List.forall₂_refl _) fun input hm _ he => ?_
    rw [← he]
    exact h.wire_eq hd hd' hp stage hi hm
  rw [h.inputs, hwires] at hw'
  obtain rfl := Except.ok.inj hw'
  have houtputs : (d'.entry i).node.design.outputs = (d.entry i).node.design.outputs := h.outputs i
  rw [houtputs, h.outline.declaration_eq, ho] at ho'
  obtain rfl := Except.ok.inj ho'
  rw [h.outline.scope_eq (h.code i stage), hs] at hs'
  obtain rfl := Except.ok.inj hs'
  rw [h.outline.handOver_eq, h.ident]
  refine .cons (.comment ?_) (List.forall₂_same.2 fun st _ => .same st)
  have htext : ∀ e : Entry, s!"{e.node.name} ({(d.entry i).ident})".toList =
      e.node.name.toList ++ (" (" ++ (d.entry i).ident ++ ")").toList := by
    intro e
    rw [← String.toList_append]
    simp [toString, String.append_assoc]
  rw [htext, htext]
  exact Glsl.fromNewline_append hname _

/-- A stage has the same opening, and the same statements behind the comments. -/
theorem sameCode_of_emit {stage : Stage} (hnames : ∀ i < d.entries.length,
      Glsl.fromNewline (d'.entry i).node.name.toList =
        Glsl.fromNewline (d.entry i).node.name.toList)
    {source source' : StageSource} (hs : (Plan.ofDiagram d).emit stage = .ok source)
    (hs' : (Plan.ofDiagram d').emit stage = .ok source') :
    source'.opening = source.opening ∧
      List.Forall₂ Statement.SameCode source.statements source'.statements := by
  obtain ⟨nodes, slots, hn, hslots, rfl⟩ := (Plan.emit_eq_ok_iff _ _).1 hs
  obtain ⟨nodes', slots', hn', hslots', rfl⟩ := (Plan.emit_eq_ok_iff _ _).1 hs'
  have hentries : (Plan.ofDiagram d').diagram.root.node.design.slots =
      (Plan.ofDiagram d).diagram.root.node.design.slots := h.slots 0
  simp only [hentries, h.emitSlot_eq hd hd' hp, hslots] at hslots'
  obtain rfl := Except.ok.inj hslots'
  constructor
  · simp only [StageSource.opening, h.outline.stageOrder_eq, h.outline.uniform?_eq,
      h.outline.varyings_eq, h.outline.headers_eq fun i => h.code i stage]
  · rw [h.outline.stageOrder_eq] at hn'
    refine List.rel_append (List.rel_flatten (forall₂_of_mapM hn hn' fun i hi l l' hl hl' => ?_))
      (List.forall₂_same.2 fun st _ => .same st)
    have hlt := Plan.lt_of_mem_stageOrder hd hi
    exact h.sameCode_of_emitNode hd hd' hp hlt (hnames i hlt) hl hl'

end Diagram.SameButNames

/-! ## Stores -/

/-- The reached nodes of one store are those of another one under other ids and display names; each
name has the stem of the other one. -/
structure Store.Retitled (f : NodeId → NodeId) (s : Store) (root : NodeId) (s' : Store)
    (root' : NodeId) : Prop where
  root_eq : f root = root'
  injOn : Set.InjOn f {n | s.Reaches root n}
  node : ∀ n, s.Reaches root n →
    (s'.get (f n)).toNode = ((s.get n).toNode.map f).renamed (s'.design (f n)).name
  stem : ∀ n, s.Reaches root n → Glsl.stem (s'.design (f n)).name = Glsl.stem (s.design n).name

variable {f : NodeId → NodeId} {s s' : Store} {root root' : NodeId}

namespace Walk

variable (h : s.Retitled f root s' root')
include h

theorem renames_retitled : Search.Renames f (fun n => (s.get n).producers)
    (fun n => (s'.get n).producers) root := by
  refine ⟨h.injOn, fun n hn => ?_⟩
  have hproducers := congrArg Node.producers (h.node n hn)
  exact hproducers.trans (Node.producers_map _ _)

/-- The walks number the same nodes in the same way, or there is none from both roots. -/
theorem run_retitled : Search.run (fun n => (s'.get n).producers) (s'.size + 1) root' =
    Search.mapResult f (Search.run (fun n => (s.get n).producers) (s.size + 1) root) := by
  rw [← h.root_eq]
  exact Search.run_map (renames_retitled h) s.mem_heldIds s.length_heldIds s'.mem_heldIds
    s'.length_heldIds

theorem discover_retitled_isOk_iff :
    (∃ w', discover s' root' = .ok w') ↔ ∃ w, discover s root = .ok w := by
  rw [discover_eq_outcome, discover_eq_outcome, run_retitled h]
  rcases Search.run (fun n => (s.get n).producers) (s.size + 1) root with c | r <;>
    simp [outcome, Search.mapResult]

variable {w w' : Walk} (hd : discover s root = .ok w) (hd' : discover s' root' = .ok w')
include hd hd'

theorem ids_retitled : w'.ids = w.ids.map f ∧ w'.diagram.order = w.diagram.order := by
  rw [discover_eq_outcome, run_retitled h] at hd'
  rw [discover_eq_outcome] at hd
  rcases hr : Search.run (fun n => (s.get n).producers) (s.size + 1) root with c | r
  · rw [hr] at hd
    cases hd
  rw [hr] at hd hd'
  cases hd
  cases hd'
  have hc := Search.run_ok root s.mem_heldIds s.length_heldIds hr
  have hfound : ∀ n ∈ r.found, s.Reaches root n := fun n => (hc.mem_found n).1
  refine ⟨rfl, ?_⟩
  simp only [Search.map, List.map_map]
  refine List.map_congr_left fun n hn => (renames_retitled h).idxOf_map ?_ hfound
  exact hfound n (hc.perm.mem_iff.1 hn)

theorem idxOf_retitled {n : NodeId} (hn : s.Reaches root n) :
    w'.ids.idxOf (f n) = w.ids.idxOf n := by
  rw [(ids_retitled h hd hd').1]
  exact (renames_retitled h).idxOf_map hn fun m => ((discover_ok hd).mem_ids m).1

theorem entry_retitled {n : NodeId} (hn : n ∈ w.ids) :
    w'.diagram.entry (w.ids.idxOf n) = entryIn s' w'.ids (f n) := by
  rw [← idxOf_retitled h hd hd' (((discover_ok hd).mem_ids n).1 hn)]
  refine (discover_ok hd').entry_idxOf ?_
  rw [(ids_retitled h hd hd').1]
  exact List.mem_map_of_mem hn

theorem sameButNames_retitled : w.diagram.SameButNames w'.diagram := by
  have hw := discover_ok hd
  obtain ⟨hids, horder⟩ := ids_retitled h hd hd'
  have hlength : w'.diagram.entries.length = w.diagram.entries.length := by
    rw [hw.length_entries, (discover_ok hd').length_entries, hids, List.length_map]
  have hentry : ∀ i, (w'.diagram.entry i).ident = (w.diagram.entry i).ident ∧
      (w'.diagram.entry i).node =
        (w.diagram.entry i).node.renamed (w'.diagram.entry i).node.name := by
    intro i
    by_cases hi : i < w.diagram.entries.length
    · obtain ⟨n, hn, rfl⟩ := hw.exists_idxOf hi
      have hreach := (hw.mem_ids n).1 hn
      have hmap : (s.get n).toNode.map (w'.ids.idxOf ∘ f) = (s.get n).toNode.map w.ids.idxOf :=
        Node.map_congr fun m hm => idxOf_retitled h hd hd' (hreach.tail hm)
      have hnode : (s'.get (f n)).toNode.map w'.ids.idxOf =
          ((s.get n).toNode.map w.ids.idxOf).renamed (s'.design (f n)).name := by
        rw [h.node n hreach, ← hmap, ← Node.map_map]
        rfl
      rw [hw.entry_idxOf hn, entry_retitled h hd hd' hn]
      refine ⟨?_, hnode⟩
      simp only [entryIn, identIn, ident, h.stem n hreach, idxOf_retitled h hd hd' hreach]
    · have hout : ∀ d : Diagram, d.entries.length ≤ i → d.entry i = default :=
        fun d hl => by simp [Diagram.entry, List.getD_eq_getElem?_getD, hl]
      rw [hout _ (not_lt.1 hi), hout _ (hlength ▸ not_lt.1 hi)]
      exact ⟨rfl, rfl⟩
  exact ⟨hlength, horder, fun i => (hentry i).1, fun i => (hentry i).2⟩

end Walk

namespace Store

theorem Retitled.design (h : s.Retitled f root s' root') {n : NodeId} (hn : s.Reaches root n) :
    s'.design (f n) = { s.design n with name := (s'.design (f n)).name } := by
  exact congrArg Node.design (h.node n hn)

/-- Graphs that differ in display names of the same stems compile or fail together. If they compile
and each name is the same as the other one from its first newline on, the sources have the same
lines apart from comments. -/
theorem names_left_out (h : s.Retitled f root s' root') :
    ((∃ shader', s'.compile root' = .ok shader') ↔ ∃ shader, s.compile root = .ok shader) ∧
      ∀ shader shader', s.compile root = .ok shader → s'.compile root' = .ok shader' →
        (∀ n, s.Reaches root n → Glsl.fromNewline (s'.design (f n)).name.toList =
          Glsl.fromNewline (s.design n).name.toList) →
        ∀ stage, Glsl.codeLines (shader'.source stage).toList =
          Glsl.codeLines (shader.source stage).toList := by
  have hmaster : (s'.design root').isMaster = (s.design root).isMaster := by
    rw [← h.root_eq, h.design .refl]
    rfl
  simp only [compile_eq_ok_iff, hmaster]
  constructor
  · constructor
    · rintro ⟨shader', hm, w', hd', hc'⟩
      obtain ⟨w, hd⟩ := (Walk.discover_retitled_isOk_iff h).1 ⟨w', hd'⟩
      obtain ⟨shader, hc⟩ := (Walk.sameButNames_retitled h hd hd').symm.compiles
        (Walk.discover_ok hd').wellFormed (Walk.discover_ok hd).wellFormed ⟨shader', hc'⟩
      exact ⟨shader, hm, w, hd, hc⟩
    · rintro ⟨shader, hm, w, hd, hc⟩
      obtain ⟨w', hd'⟩ := (Walk.discover_retitled_isOk_iff h).2 ⟨w, hd⟩
      obtain ⟨shader', hc'⟩ := (Walk.sameButNames_retitled h hd hd').compiles
        (Walk.discover_ok hd).wellFormed (Walk.discover_ok hd').wellFormed ⟨shader, hc⟩
      exact ⟨shader', hm, w', hd', hc'⟩
  · rintro shader shader' ⟨-, w, hd, hc⟩ ⟨-, w', hd', hc'⟩ hnames stage
    have hw := Walk.discover_ok hd
    have hentries : ∀ i < w.diagram.entries.length,
        Glsl.fromNewline (w'.diagram.entry i).node.name.toList =
          Glsl.fromNewline (w.diagram.entry i).node.name.toList := by
      intro i hi
      obtain ⟨n, hn, rfl⟩ := hw.exists_idxOf hi
      rw [hw.entry_idxOf hn, Walk.entry_retitled h hd hd' hn]
      exact hnames n ((hw.mem_ids n).1 hn)
    obtain ⟨hopening, hcode⟩ := (Walk.sameButNames_retitled h hd hd').sameCode_of_emit
      hw.wellFormed (Walk.discover_ok hd').wellFormed (Plan.portsFit_of_compile hc) hentries
      (Plan.emit_of_compile hc stage) (Plan.emit_of_compile hc' stage)
    rw [shader.source_eq, shader'.source_eq]
    exact StageSource.codeLines_render hopening hcode

end Store

section Titled

/-- A material that reads a node of a name. -/
def titled (name : String) : Store :=
  let tone := Node.named name |>.output "value" .float "0.5"
  let material := Node.named "Surface"
    |>.slot "tone" ((Port.ofKind .float).wired (.edge ⟨0⟩ "value")) (.plain .fragment "tone")
  ⟨#[⟨tone, none⟩, ⟨material, none⟩]⟩

theorem titled_retitled (name name' : String) (hstem : Glsl.stem name' = Glsl.stem name) :
    (titled name).Retitled id ⟨1⟩ (titled name') ⟨1⟩ := by
  refine ⟨rfl, Set.injOn_id _, fun n _ => ?_, fun n _ => ?_⟩
  · rcases n with ⟨_ | _ | n⟩ <;> rfl
  · rcases n with ⟨_ | _ | n⟩
    · exact hstem
    · rfl
    · rfl

theorem names_left_out_titled : ∃ shader shader', (titled "Tone").compile ⟨1⟩ = .ok shader ∧
    (titled "tone?").compile ⟨1⟩ = .ok shader' ∧
    shader'.source .fragment ≠ shader.source .fragment ∧
    ∀ stage, Glsl.codeLines (shader'.source stage).toList =
      Glsl.codeLines (shader.source stage).toList := by
  obtain ⟨hcompiles, hlines⟩ :=
    Store.names_left_out (titled_retitled "Tone" "tone?" (by decide +kernel))
  have hok : ((titled "Tone").compile ⟨1⟩).toBool = true := by decide +kernel
  obtain ⟨shader, hc⟩ := exists_of_toBool hok
  obtain ⟨shader', hc'⟩ := hcompiles.2 ⟨shader, hc⟩
  have hne : ((titled "tone?").compile ⟨1⟩).toOption.map (·.source .fragment) ≠
      ((titled "Tone").compile ⟨1⟩).toOption.map (·.source .fragment) := by decide +kernel
  rw [hc, hc'] at hne
  refine ⟨shader, shader', hc, hc', fun h => hne (congrArg some h), ?_⟩
  refine hlines shader shader' hc hc' fun n _ => ?_
  rcases n with ⟨_ | _ | n⟩
  · decide +kernel
  · rfl
  · rfl

/-- What a name has behind a newline is code of the shader. -/
theorem name_reaches_code :
    (titled "Tone discard").Retitled id ⟨1⟩ (titled "Tone\ndiscard; //") ⟨1⟩ ∧
      ∃ shader shader', (titled "Tone discard").compile ⟨1⟩ = .ok shader ∧
        (titled "Tone\ndiscard; //").compile ⟨1⟩ = .ok shader' ∧
        "discard; // (ToneDiscard_1)".toList ∈
          Glsl.codeLines (shader'.source .fragment).toList ∧
        Glsl.codeLines (shader'.source .fragment).toList ≠
          Glsl.codeLines (shader.source .fragment).toList := by
  refine ⟨titled_retitled _ _ (by decide +kernel), ?_⟩
  have h : ((titled "Tone discard").compile ⟨1⟩).toOption.map
        (fun shader => Glsl.codeLines (shader.source .fragment).toList) =
        some (["void main() \x7b", "    float ToneDiscard_1_out_value = 0.5;",
          "    tone = ToneDiscard_1_out_value;", "\x7d", ""].map String.toList) ∧
      ((titled "Tone\ndiscard; //").compile ⟨1⟩).toOption.map
        (fun shader => Glsl.codeLines (shader.source .fragment).toList) =
        some (["void main() \x7b", "discard; // (ToneDiscard_1)",
          "    float ToneDiscard_1_out_value = 0.5;", "    tone = ToneDiscard_1_out_value;",
          "\x7d", ""].map String.toList) := by decide +kernel
  obtain ⟨shader, hc, hlines⟩ := exists_of_toOption h.1
  obtain ⟨shader', hc', hlines'⟩ := exists_of_toOption h.2
  refine ⟨shader, shader', hc, hc', ?_, ?_⟩
  · rw [hlines']
    decide
  · rw [hlines, hlines']
    decide

end Titled

end ShaderGraph
