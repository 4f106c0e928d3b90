import ShaderGraph.Proofs.Ordering

/-!
# Searching trees

What is below some targets is a forest if every way down to a thing is the only one. A forest has an
order in which it is entered and one in which it is left (`Search.Spans`), and a search that comes
to a forest of new things goes through it in these two orders (`Spans.runs`). So a walk whose root
reads the roots of a forest first has the forest in front, and behind it only what the root reads
otherwise (`Walk.discover_forest`).
-/

namespace ShaderGraph

namespace Search

variable {α : Type} {next : α → List α}

variable (next) in
/-- What is below targets, in the order in which a search enters it and in that in which it leaves
it. -/
inductive Spans : List α → List α → List α → Prop
  | nil : Spans [] [] []
  | cons {a : α} {rest below below' beside beside' : List α} (hbelow : Spans (next a) below below')
    (hbeside : Spans rest beside beside') :
    Spans (a :: rest) (a :: below ++ beside) (below' ++ a :: beside')

namespace Spans

variable {targets targets' pre pre' post post' : List α} {a : α}

theorem single (h : Spans next (next a) pre post) : Spans next [a] (a :: pre) (post ++ [a]) := by
  have := h.cons nil
  rwa [List.append_nil] at this

theorem leaf (h : next a = []) : Spans next [a] [a] [a] := by
  have hnil : Spans next (next a) [] [] := by
    rw [h]
    exact nil
  exact hnil.single

theorem append (h : Spans next targets pre post) (h' : Spans next targets' pre' post') :
    Spans next (targets ++ targets') (pre ++ pre') (post ++ post') := by
  induction h with
  | nil => exact h'
  | cons hbelow _ _ ih =>
    have := hbelow.cons ih
    simpa only [List.cons_append, List.append_assoc] using this

theorem perm (h : Spans next targets pre post) : post.Perm pre := by
  induction h with
  | nil => exact .nil
  | cons _ _ ih ih' => exact List.perm_middle.trans ((ih.append ih').cons _)

theorem subset (h : Spans next targets pre post) : targets ⊆ pre := by
  induction h with
  | nil => exact List.nil_subset _
  | cons _ _ _ ih' =>
    exact List.cons_subset_cons _ fun b hb => List.mem_append_right _ (ih' hb)

theorem closed (h : Spans next targets pre post) : ∀ a ∈ pre, next a ⊆ pre := by
  induction h with
  | nil => exact List.forall_mem_nil _
  | cons hbelow _ ih ih' =>
    intro c hc b hb
    rw [List.cons_append, List.mem_cons, List.mem_append] at hc ⊢
    rcases hc with rfl | hc | hc
    · exact .inr (.inl (hbelow.subset hb))
    · exact .inr (.inl (ih c hc hb))
    · exact .inr (.inr (ih' c hc hb))

theorem mem_of_reaches (h : Spans next targets pre post) {b : α} (ha : a ∈ targets)
    (hb : Reaches next a b) : b ∈ pre := by
  induction hb with
  | refl => exact h.subset ha
  | tail _ hlead ih => exact h.closed _ ih hlead

/-- What holds of the targets and goes on to what a thing leads to holds of all that is below. -/
theorem forall_mem (h : Spans next targets pre post) {P : α → Prop} (htargets : ∀ a ∈ targets, P a)
    (hnext : ∀ a ∈ pre, P a → ∀ b ∈ next a, P b) : ∀ a ∈ pre, P a := by
  induction h with
  | nil => exact List.forall_mem_nil _
  | cons _ _ ih ih' =>
    rw [List.forall_mem_cons] at htargets
    simp only [List.cons_append, List.forall_mem_cons, List.forall_mem_append] at hnext ⊢
    obtain ⟨hroot, hbelow, hbeside⟩ := hnext
    exact ⟨htargets.1, ih (hroot htargets.1) hbelow, ih' htargets.2 hbeside⟩

/-- A search goes through a forest of new things in the two orders of the forest. -/
theorem runs [DecidableEq α] (h : Spans next targets pre post) : ∀ {path : List α} {s : Search α},
    pre.Nodup → (∀ a ∈ pre, a ∉ path ∧ a ∉ s.found) →
      Runs next path targets s (.ok ⟨s.found ++ pre, s.finished ++ post⟩) := by
  induction h with
  | nil =>
    intro path s _ _
    simpa only [List.append_nil] using Runs.done
  | @cons a rest below below' beside beside' _ _ ih ih' =>
    intro path s hnodup hnew
    obtain ⟨hout, hin, hapart⟩ := List.nodup_append.1 hnodup
    obtain ⟨hroot, hbelow⟩ := List.nodup_cons.1 hout
    rw [List.cons_append, List.forall_mem_cons, List.forall_mem_append] at hnew
    obtain ⟨⟨hpath, hfound⟩, hnew, hnew'⟩ := hnew
    have hnext := @ih (a :: path) ⟨s.found ++ [a], s.finished⟩ hbelow fun b hb => by
      have hne : b ≠ a := fun he => hroot (he ▸ hb)
      simp [hne, hnew b hb]
    have hrest := @ih' path ⟨s.found ++ [a] ++ below, s.finished ++ below' ++ [a]⟩ hin
      fun b hb => by
        have hne : b ≠ a := fun he => hapart a List.mem_cons_self b hb he.symm
        have hnot : b ∉ below := fun hm => hapart b (List.mem_cons_of_mem _ hm) b hb rfl
        simp [hne, hnot, hnew' b hb]
    have := Runs.finished hpath hfound hnext hrest
    simpa only [List.append_assoc, List.cons_append, List.nil_append] using this

end Spans

variable [DecidableEq α]

/-- A search that has come through its first targets goes on with the others. -/
theorem Runs.rest {path first others : List α} {s s' : Search α} {r : Except (Cycle α) (Search α)}
    (h : Runs next path first s (.ok s')) (h' : Runs next path (first ++ others) s r) :
    Runs next path others s' r := by
  generalize hr : (.ok s' : Except (Cycle α) (Search α)) = r' at h
  induction h with
  | done =>
    cases hr
    exact h'
  | around | stopped => cases hr
  | known hpath hfound _ ih =>
    cases h' with
    | around hpath' => exact absurd hpath' hpath
    | known _ _ hrest => exact ih hrest hr
    | stopped _ hfound' | finished _ hfound' => exact absurd hfound hfound'
  | finished hpath hfound hnext _ _ ih =>
    cases h' with
    | around hpath' => exact absurd hpath' hpath
    | known _ hfound' => exact absurd hfound' hfound
    | stopped _ _ hnext' => cases hnext.unique hnext'
    | finished _ _ hnext' hrest =>
      cases hnext.unique hnext'
      exact ih hrest hr

/-- If a root leads to a forest first, a search goes through the forest in order, then comes to what
the root leads to next, and to nothing that is not below what the root leads to otherwise. -/
theorem run_forest {root : α} {depth : Nat} {leaders : List α}
    (hl : ∀ a, next a ≠ [] → a ∈ leaders) (hd : leaders.length < depth) {s : Search α}
    (h : run next depth root = .ok s) {targets others pre post : List α}
    (hnext : next root = targets ++ others) (hforest : Spans next targets pre post)
    (hnodup : (root :: pre).Nodup) : ∃ later later', s.found = root :: pre ++ later ∧
      s.finished = post ++ later' ++ [root] ∧ later'.Perm later ∧
      (∀ a ∈ later, ∃ b ∈ others, Reaches next b a) ∧
      ∀ b ∈ others.head?, b ∉ root :: pre → later.head? = some b := by
  have hcomplete := run_ok root hl hd h
  have hruns := run_runs root hl hd
  rw [h] at hruns
  cases hruns with
  | known _ hfound _ => cases hfound
  | @finished _ _ _ _ s' _ hpath hfound hbelow hrest =>
  cases hrest
  obtain ⟨hroot, hpre⟩ := List.nodup_cons.1 hnodup
  have hahead : Ahead next root [root] (next root) := (ahead_root root).push
  have hpush : Explored next root [root] ⟨[root], []⟩ :=
    (Explored.start root).push hfound (ahead_root root)
  rw [hnext] at hbelow hahead
  have hfirst : Runs next [root] targets ⟨[root], []⟩ (.ok ⟨[root] ++ pre, [] ++ post⟩) :=
    hforest.runs hpre fun a ha => by
      have hne : a ≠ root := fun he => hroot (he ▸ ha)
      simp [hne]
  -- the forest is behind the search, and what the root leads to otherwise is ahead
  obtain ⟨hexplored, -⟩ := hfirst.visited hpush fun a ha => hahead a (List.mem_append_left _ ha)
  obtain ⟨-, hgrown⟩ := (hfirst.rest hbelow).visited hexplored fun a ha =>
    hahead a (List.mem_append_right _ ha)
  obtain ⟨later, hlater⟩ := hgrown.found
  obtain ⟨later', hlater'⟩ := hgrown.finished
  simp only [List.cons_append, List.nil_append] at hlater hlater'
  have hnodup' := hcomplete.nodup
  refine ⟨later, later', hlater.symm, by rw [hlater'], ?_, fun a ha => ?_, fun b hb hnew => ?_⟩
  · have hperm := hcomplete.perm
    rw [← hlater, ← hlater'] at hperm
    have hfront : (post ++ later' ++ [root]).Perm (root :: pre ++ later') :=
      (List.perm_append_singleton _ _).trans ((hforest.perm.append_right later').cons root)
    exact (List.perm_append_left_iff _).1 (hfront.symm.trans hperm)
  · have hfound : a ∈ s'.found := hlater ▸ List.mem_cons_of_mem _ (List.mem_append_right _ ha)
    rw [← hlater, ← List.cons_append] at hnodup'
    have hapart := (List.nodup_append.1 hnodup').2.2
    rcases Relation.ReflTransGen.cases_head ((hcomplete.mem_found a).1 hfound) with
      rfl | ⟨b, hb, hreaches⟩
    · exact absurd rfl (hapart _ List.mem_cons_self _ ha)
    · rw [Leads, hnext, List.mem_append] at hb
      rcases hb with hb | hb
      · have hm := List.mem_cons_of_mem root (hforest.mem_of_reaches hb hreaches)
        exact absurd rfl (hapart a hm a ha)
      · exact ⟨b, hb, hreaches⟩
  · have hfirst := hgrown.first b hb hnew
    rw [← hlater] at hfirst
    have : [b] <+: later := (List.prefix_append_right_inj _).1 hfirst
    obtain ⟨rest, rfl⟩ := this
    rfl

end Search

/-- If a root reads a forest first, a walk numbers the forest in order, then what the root reads
next, and nothing that is not below what the root reads otherwise. -/
theorem Walk.discover_forest {s : Store} {root : NodeId} {w : Walk} (h : discover s root = .ok w)
    {targets others pre post : List NodeId} (hnext : (s.get root).producers = targets ++ others)
    (hforest : Search.Spans (fun n => (s.get n).producers) targets pre post)
    (hnodup : (root :: pre).Nodup) : ∃ later later', w.ids = root :: pre ++ later ∧
      w.topological = post ++ later' ++ [root] ∧ later'.Perm later ∧
      (∀ n ∈ later, ∃ m ∈ others, s.Reaches m n) ∧
      ∀ m ∈ others.head?, m ∉ root :: pre → later.head? = some m := by
  rw [discover_eq_outcome] at h
  rcases hr : Search.run (fun n => (s.get n).producers) (s.size + 1) root with c | r
  · rw [hr] at h
    cases h
  · rw [hr] at h
    have hcomplete := Search.run_ok root s.mem_heldIds s.length_heldIds hr
    rw [topological_eq hcomplete h]
    cases h
    exact Search.run_forest s.mem_heldIds s.length_heldIds hr hnext hforest hnodup

end ShaderGraph
