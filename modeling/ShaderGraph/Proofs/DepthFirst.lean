import Mathlib.Data.List.Chain
import Mathlib.Data.List.Nodup
import Mathlib.Data.List.Perm.Subperm
import Mathlib.Logic.Relation
import ShaderGraph.Graph.Search

/-!
# What a depth-first search finds

A thing that is found is either finished or on the path, and it is finished only after everything
that it leads to (`Runs.visited`). So a search that ends has finished exactly what its start
leads to, what is led to first (`run_ok`), and one that stops has met a cycle (`run_error`). With
the depth that `run` is given, a visit never runs out of depth (`run_runs`): the things on its path
are distinct, and all of them lead on.
-/

namespace ShaderGraph

namespace Search

variable {α : Type} (next : α → List α)

def Leads (a b : α) : Prop := b ∈ next a

abbrev Reaches : α → α → Prop := Relation.ReflTransGen (Leads next)

/-- No way from the root comes back to where it was. -/
def Acyclic (root : α) : Prop := ∀ a, Reaches next root a → ¬ Relation.TransGen (Leads next) a a

/-- Whatever a listed thing leads to is listed before it. -/
def Ordered (l : List α) : Prop := ∀ pre a post, l = pre ++ a :: post → ∀ b ∈ next a, b ∈ pre

/-- Whatever was found before a listed thing is listed before it or leads to something that is
not. -/
def Earliest (found l : List α) : Prop := ∀ pre a post, l = pre ++ a :: post →
  ∃ before after, found = before ++ a :: after ∧ ∀ b ∈ before, b ∉ pre → ∃ c ∈ next b, c ∉ pre

theorem eq_or_exists_of_concat {l pre post : List α} {a c : α} (h : l ++ [a] = pre ++ c :: post) :
    (pre = l ∧ c = a) ∨ ∃ post', l = pre ++ c :: post' := by
  rcases List.eq_nil_or_concat' post with rfl | ⟨post', d, rfl⟩
  · obtain ⟨rfl, hc⟩ := List.append_inj' h rfl
    simp only [List.cons.injEq, and_true] at hc
    exact .inl ⟨rfl, hc.symm⟩
  · rw [show pre ++ c :: (post' ++ [d]) = (pre ++ c :: post') ++ [d] by simp] at h
    obtain ⟨rfl, -⟩ := List.append_inj' h rfl
    exact .inr ⟨post', rfl⟩

section Earliest

variable {next}

theorem earliest_nil (found : List α) : Earliest next found [] := by
  intro pre a post h
  simp at h

theorem Earliest.append {found l : List α} (hl : Earliest next found l) (found' : List α) :
    Earliest next (found ++ found') l := by
  intro pre a post h
  obtain ⟨before, after, rfl, hb⟩ := hl pre a post h
  exact ⟨before, after ++ found', by simp, hb⟩

theorem Earliest.concat {found l before after : List α} {a : α} (hl : Earliest next found l)
    (hfound : found = before ++ a :: after) (ha : ∀ b ∈ before, b ∉ l → ∃ c ∈ next b, c ∉ l) :
    Earliest next found (l ++ [a]) := by
  intro pre c post h
  rcases eq_or_exists_of_concat h with ⟨rfl, rfl⟩ | ⟨post', rfl⟩
  · exact ⟨before, after, hfound, ha⟩
  · exact hl pre c post' rfl

end Earliest

section Ordered

variable {next}

theorem ordered_nil : Ordered next [] := by
  intro pre a post h
  simp at h

theorem Ordered.concat {l : List α} {a : α} (hl : Ordered next l) (ha : ∀ b ∈ next a, b ∈ l) :
    Ordered next (l ++ [a]) := by
  intro pre c post h b hb
  rcases eq_or_exists_of_concat h with ⟨rfl, rfl⟩ | ⟨post', rfl⟩
  · exact ha b hb
  · exact hl pre c post' rfl b hb

theorem Ordered.of_prefix {l l' : List α} (hl : Ordered next (l ++ l')) : Ordered next l := by
  rintro pre a post rfl b hb
  exact hl pre a (post ++ l') (by simp) b hb

theorem Ordered.mem {l : List α} {a b : α} (hl : Ordered next l) (ha : a ∈ l)
    (hb : Leads next a b) : b ∈ l := by
  obtain ⟨pre, post, rfl⟩ := List.append_of_mem ha
  exact List.mem_append_left _ (hl pre a post rfl b hb)

theorem Ordered.mem_of_reaches {l : List α} {a b : α} (hl : Ordered next l) (ha : a ∈ l)
    (hb : Reaches next a b) : b ∈ l := by
  induction hb with
  | refl => exact ha
  | tail _ h ih => exact hl.mem ih h

variable [DecidableEq α]

theorem Ordered.idxOf_lt {l : List α} {a b : α} (hl : Ordered next l) (ha : a ∈ l)
    (hb : Leads next a b) : l.idxOf b < l.idxOf a := by
  obtain ⟨pre, post, rfl, hpre⟩ := List.eq_append_cons_of_mem ha
  have hb' := hl pre a post rfl b hb
  rw [List.idxOf_append_of_mem hb', List.idxOf_append_of_notMem hpre, List.idxOf_cons_self]
  have := List.idxOf_lt_length_of_mem hb'
  omega

/-- What holds of a thing when it holds of all that the thing leads to holds of all that is
listed. -/
theorem Ordered.forall_mem {l : List α} (hl : Ordered next l) {P : α → Prop}
    (h : ∀ a ∈ l, (∀ b ∈ next a, P b) → P a) : ∀ a ∈ l, P a := by
  intro a ha
  induction hn : l.idxOf a using Nat.strong_induction_on generalizing a with
  | _ n ih =>
    subst hn
    exact h a ha fun b hb => ih _ (hl.idxOf_lt ha hb) b (hl.mem ha hb) rfl

theorem Ordered.idxOf_lt_of_transGen {l : List α} {a b : α} (hl : Ordered next l) (ha : a ∈ l)
    (hb : Relation.TransGen (Leads next) a b) : l.idxOf b < l.idxOf a := by
  induction hb with
  | single h => exact hl.idxOf_lt ha h
  | tail h₁ h₂ ih =>
    have := hl.idxOf_lt (hl.mem_of_reaches ha h₁.to_reflTransGen) h₂
    omega

theorem Ordered.acyclic {l : List α} {root : α} (hl : Ordered next l) (hroot : root ∈ l) :
    Acyclic next root := by
  intro a ha hc
  have := hl.idxOf_lt_of_transGen (hl.mem_of_reaches hroot ha) hc
  omega

end Ordered

/-- A way around, through things that were found and that the root leads to. -/
structure Cycle.Genuine (root : α) (c : Cycle α) : Prop where
  closed : ∃ a between, c.path = a :: between ++ [a] ∧ (a :: between).Nodup
  leads : c.path.IsChain (Leads next)
  found : ∀ a ∈ c.path, a ∈ c.found
  reached : ∀ a ∈ c.found, Reaches next root a
  nodup : c.found.Nodup

theorem Cycle.Genuine.not_acyclic {root : α} {c : Cycle α} (hc : c.Genuine next root) :
    ¬ Acyclic next root := by
  obtain ⟨a, between, hp, -⟩ := hc.closed
  intro h
  refine h a (hc.reached a (hc.found a (by simp [hp]))) ?_
  have hl := hc.leads.imp fun _ _ => Relation.TransGen.single
  rw [hp] at hl
  exact hl.rel_cons (by simp)

/-- How far a search from the root has got when it stands at the end of a path, the last step
first. -/
structure Explored (root : α) (path : List α) (s : Search α) : Prop where
  nodup : s.found.Nodup
  finished_nodup : s.finished.Nodup
  path_nodup : path.Nodup
  mem_found : ∀ a, a ∈ s.found ↔ a ∈ s.finished ∨ a ∈ path
  unfinished : ∀ a ∈ path, a ∉ s.finished
  trail : path.IsChain fun a b => Leads next b a
  ordered : Ordered next s.finished
  earliest : Earliest next s.found s.finished
  reached : ∀ a ∈ s.found, Reaches next root a

/-- What a search keeps and adds when it goes on from `s` and visits some targets. -/
structure Grown (targets : List α) (s s' : Search α) : Prop where
  found : s.found <+: s'.found
  finished : s.finished <+: s'.finished
  first : ∀ a ∈ targets.head?, a ∉ s.found → s.found ++ [a] <+: s'.found
  done : ∀ a ∈ targets, a ∈ s'.finished

/-- The targets are what the end of the path leads to, if there is a path, and the root reaches
them. -/
def Ahead (root : α) (path targets : List α) : Prop :=
  ∀ a ∈ targets, (a :: path).IsChain (fun a b => Leads next b a) ∧ Reaches next root a

def Visited (root : α) (path targets : List α) (s : Search α) :
    Except (Cycle α) (Search α) → Prop
  | .ok s' => Explored next root path s' ∧ Grown targets s s'
  | .error c => c.Genuine next root

variable {next}

theorem exists_leads_of_trail : ∀ {path : List α} {a : α},
    (a :: path).IsChain (fun a b => Leads next b a) → ∀ b ∈ path, ∃ c ∈ a :: path, Leads next b c
  | [], _, _, b, hb => by simp at hb
  | c :: path, a, h, b, hb => by
    obtain ⟨hac, hc⟩ := List.isChain_cons_cons.1 h
    rcases List.mem_cons.1 hb with rfl | hb
    · exact ⟨a, by simp, hac⟩
    · obtain ⟨e, he, hbe⟩ := exists_leads_of_trail hc b hb
      exact ⟨e, List.mem_cons_of_mem _ he, hbe⟩

theorem ahead_root (root : α) : Ahead next root [] [root] := by
  simp [Ahead, Relation.ReflTransGen.refl]

theorem Ahead.push {root a : α} {path rest : List α} (h : Ahead next root path (a :: rest)) :
    Ahead next root (a :: path) (next a) := by
  obtain ⟨htrail, hr⟩ := h a List.mem_cons_self
  exact fun b hb => ⟨List.isChain_cons_cons.2 ⟨hb, htrail⟩, hr.tail hb⟩

theorem Ahead.tail {root a : α} {path rest : List α} (h : Ahead next root path (a :: rest)) :
    Ahead next root path rest := fun b hb => h b (List.mem_cons_of_mem a hb)

theorem Explored.start (root : α) : Explored next root [] start := by
  constructor <;> simp [Search.start, ordered_nil, earliest_nil]

theorem Explored.push {root a : α} {path : List α} {s : Search α}
    (hs : Explored next root path s) (ha : a ∉ s.found) {rest : List α}
    (ht : Ahead next root path (a :: rest)) :
    Explored next root (a :: path) ⟨s.found ++ [a], s.finished⟩ := by
  obtain ⟨htrail, hr⟩ := ht a List.mem_cons_self
  have hfin : a ∉ s.finished := fun h => ha ((hs.mem_found a).2 (.inl h))
  have hpath : a ∉ path := fun h => ha ((hs.mem_found a).2 (.inr h))
  refine ⟨?_, hs.finished_nodup, List.nodup_cons.2 ⟨hpath, hs.path_nodup⟩, fun b => ?_, ?_, htrail,
    hs.ordered, hs.earliest.append [a], ?_⟩
  · simpa using List.Nodup.concat ha hs.nodup
  · rw [List.mem_append, List.mem_singleton, hs.mem_found b, List.mem_cons]
    tauto
  · simp only [List.mem_cons, forall_eq_or_imp]
    exact ⟨hfin, hs.unfinished⟩
  · simp only [List.mem_append, List.mem_singleton, or_imp, forall_and, forall_eq]
    exact ⟨hs.reached, hr⟩

theorem Explored.pop {root a : α} {path : List α} {s : Search α}
    (hs : Explored next root (a :: path) s) (hn : ∀ b ∈ next a, b ∈ s.finished) :
    Explored next root path ⟨s.found, s.finished ++ [a]⟩ := by
  have hfin : a ∉ s.finished := hs.unfinished a (by simp)
  obtain ⟨hpath, hpn⟩ := List.nodup_cons.1 hs.path_nodup
  obtain ⟨before, after, hfound⟩ := List.append_of_mem ((hs.mem_found a).2 (.inr (by simp)))
  refine ⟨hs.nodup, ?_, hpn, fun b => ?_, fun b hb => ?_, hs.trail.tail, hs.ordered.concat hn,
    hs.earliest.concat hfound fun b hb hbfin => ?_, hs.reached⟩
  · simpa using List.Nodup.concat hfin hs.finished_nodup
  · rw [hs.mem_found b, List.mem_append, List.mem_singleton, List.mem_cons]
    tauto
  · simp only [List.mem_append, List.mem_singleton, not_or]
    exact ⟨hs.unfinished b (by simp [hb]), fun h => hpath (h ▸ hb)⟩
  · -- what is neither finished nor `a` itself is on the path and so waits for what is behind it
    have hnd := hs.nodup
    rw [hfound] at hnd
    have hba : b ≠ a := fun h => (List.nodup_append.1 hnd).2.2 b hb a (by simp) h
    have hbpath := ((hs.mem_found b).1 (by simp [hfound, hb])).resolve_left hbfin
    have hbtail := (List.mem_cons.1 hbpath).resolve_left hba
    obtain ⟨c, hc, hbc⟩ := exists_leads_of_trail hs.trail b hbtail
    exact ⟨c, hbc, hs.unfinished c hc⟩

variable [DecidableEq α]

/-- The way back to a thing on the path is a cycle. -/
theorem Explored.genuine {root a : α} {path : List α} {s : Search α}
    (hs : Explored next root path s) (ha : a ∈ path)
    (ht : (a :: path).IsChain fun a b => Leads next b a) :
    Cycle.Genuine next root
      ⟨a :: (path.takeWhile (· ≠ a)).reverse ++ [a], s.found⟩ := by
  obtain ⟨pre, post, rfl, hpre⟩ := List.eq_append_cons_of_mem ha
  have htw : (pre ++ a :: post).takeWhile (· ≠ a) = pre := by
    rw [List.takeWhile_append_of_pos fun b hb => by simpa using fun h : b = a => hpre (h ▸ hb)]
    simp
  rw [htw]
  have hnd : (a :: pre).Nodup :=
    List.nodup_cons.2 ⟨hpre, (List.nodup_append.1 hs.path_nodup).1⟩
  refine ⟨⟨a, pre.reverse, rfl, ?_⟩, ?_, fun b hb => ?_, hs.reached, hs.nodup⟩
  · simpa using hnd
  · rw [← List.isChain_reverse]
    have hpost : a :: pre ++ [a] <+: a :: (pre ++ a :: post) := ⟨post, by simp⟩
    simpa using ht.prefix hpost
  · refine (hs.mem_found b).2 (.inr ?_)
    simp only [List.cons_append, List.mem_cons, List.mem_append, List.mem_reverse, List.not_mem_nil,
      or_false] at hb ⊢
    tauto

variable (next) in
/-- A search that visits targets one after another ends with a result, however deep it goes. -/
inductive Runs : List α → List α → Search α → Except (Cycle α) (Search α) → Prop
  | done {path : List α} {s : Search α} : Runs path [] s (.ok s)
  | around {path rest : List α} {a : α} {s : Search α} (hpath : a ∈ path) :
    Runs path (a :: rest) s (.error ⟨a :: (path.takeWhile (· ≠ a)).reverse ++ [a], s.found⟩)
  | known {path rest : List α} {a : α} {s : Search α} {r : Except (Cycle α) (Search α)}
    (hpath : a ∉ path) (hfound : a ∈ s.found) (hrest : Runs path rest s r) :
    Runs path (a :: rest) s r
  | stopped {path rest : List α} {a : α} {s : Search α} {c : Cycle α}
    (hpath : a ∉ path) (hfound : a ∉ s.found)
    (hnext : Runs (a :: path) (next a) ⟨s.found ++ [a], s.finished⟩ (.error c)) :
    Runs path (a :: rest) s (.error c)
  | finished {path rest : List α} {a : α} {s s' : Search α} {r : Except (Cycle α) (Search α)}
    (hpath : a ∉ path) (hfound : a ∉ s.found)
    (hnext : Runs (a :: path) (next a) ⟨s.found ++ [a], s.finished⟩ (.ok s'))
    (hrest : Runs path rest ⟨s'.found, s'.finished ++ [a]⟩ r) : Runs path (a :: rest) s r

theorem Runs.visited {root : α} {path targets : List α} {s : Search α}
    {r : Except (Cycle α) (Search α)} (h : Runs next path targets s r)
    (hs : Explored next root path s) (ht : Ahead next root path targets) :
    Visited next root path targets s r := by
  induction h with
  | done => exact ⟨hs, List.prefix_rfl, List.prefix_rfl, by simp, by simp⟩
  | around hpath => exact hs.genuine hpath (ht _ List.mem_cons_self).1
  | @known path rest a s r hpath hfound _ ih =>
    have hrest := ih hs ht.tail
    rcases r with c | s'
    · exact hrest
    · obtain ⟨hs', hg⟩ := hrest
      have ha : a ∈ s'.finished :=
        hg.finished.subset (((hs.mem_found a).1 hfound).resolve_right hpath)
      exact ⟨hs', hg.found, hg.finished, by simp [hfound], by simpa [ha] using hg.done⟩
  | stopped hpath hfound _ ih => exact ih (hs.push hfound ht) ht.push
  | @finished path rest a s s' r hpath hfound _ _ ih ih' =>
    obtain ⟨hs', hg⟩ := ih (hs.push hfound ht) ht.push
    have hrest := ih' (hs'.pop hg.done) ht.tail
    rcases r with c | s''
    · exact hrest
    · obtain ⟨hs'', hg'⟩ := hrest
      have ha : a ∈ s''.finished := hg'.finished.subset (by simp)
      refine ⟨hs'', ((List.prefix_append _ _).trans hg.found).trans hg'.found,
        (hg.finished.trans (List.prefix_append _ _)).trans hg'.finished, ?_,
        by simpa [ha] using hg'.done⟩
      simpa using fun _ => hg.found.trans hg'.found

/-- A search has one result at most. -/
theorem Runs.unique {path targets : List α} {s : Search α} {r r' : Except (Cycle α) (Search α)}
    (h : Runs next path targets s r) (h' : Runs next path targets s r') : r = r' := by
  induction h generalizing r' with
  | done =>
    cases h'
    rfl
  | around hpath =>
    cases h' with
    | around => rfl
    | known hpath' | stopped hpath' | finished hpath' => exact absurd hpath hpath'
  | known hpath hfound _ ih =>
    cases h' with
    | around hpath' => exact absurd hpath' hpath
    | known _ _ hrest' => exact ih hrest'
    | stopped _ hfound' | finished _ hfound' => exact absurd hfound hfound'
  | stopped hpath hfound _ ih =>
    cases h' with
    | around hpath' => exact absurd hpath' hpath
    | known _ hfound' => exact absurd hfound' hfound
    | stopped _ _ hnext' => exact ih hnext'
    | finished _ _ hnext' => cases ih hnext'
  | finished hpath hfound _ _ ih ih' =>
    cases h' with
    | around hpath' => exact absurd hpath' hpath
    | known _ hfound' => exact absurd hfound' hfound
    | stopped _ _ hnext' => cases ih hnext'
    | finished _ _ hnext' hrest' =>
      cases ih hnext'
      exact ih' hrest'

variable (next) in
/-- Visits the targets one after another. -/
def visitAll (depth : Nat) (path targets : List α) (s : Search α) :
    Except (Cycle α) (Search α) :=
  targets.foldlM (fun s b => visit next depth path b s) s

theorem visitAll_cons (depth : Nat) (path rest : List α) (a : α) (s : Search α) :
    visitAll next (depth + 1) path (a :: rest) s =
      (if a ∈ path then .error ⟨a :: (path.takeWhile (· ≠ a)).reverse ++ [a], s.found⟩
      else if a ∈ s.found then visitAll next (depth + 1) path rest s
      else do
        let s' ← visitAll next depth (a :: path) (next a) ⟨s.found ++ [a], s.finished⟩
        visitAll next (depth + 1) path rest ⟨s'.found, s'.finished ++ [a]⟩) := by
  simp only [visitAll, List.foldlM_cons]
  rw [visit]
  split_ifs
  · rfl
  · rfl
  · simp only [bind_assoc, pure_bind]

/-- A search whose depth is enough for all things that lead on and are not on the path. -/
theorem visitAll_runs {root : α} {leaders : List α} (hl : ∀ a, next a ≠ [] → a ∈ leaders) :
    ∀ (depth : Nat) (path targets : List α) (s : Search α),
      leaders.length < depth + path.length → Explored next root path s →
      Ahead next root path targets →
      Runs next path targets s (visitAll next depth path targets s)
  | _, _, [], _, _, _, _ => .done
  | 0, path, a :: rest, s, hdepth, hs, ht => by
    have hsub : path ⊆ leaders := by
      intro b hb
      obtain ⟨c, -, hc⟩ := exists_leads_of_trail (ht a (by simp)).1 b hb
      exact hl b (List.ne_nil_of_mem hc)
    have := (List.subperm_of_subset hs.path_nodup hsub).length_le
    omega
  | depth + 1, path, a :: rest, s, hdepth, hs, ht => by
    rw [visitAll_cons]
    split_ifs with hpath hfound
    · exact .around hpath
    · exact .known hpath hfound (visitAll_runs hl (depth + 1) path rest s hdepth hs ht.tail)
    · have hpush := hs.push hfound ht
      have hnext := visitAll_runs hl depth (a :: path) (next a) _
        (by rw [List.length_cons]; omega) hpush ht.push
      have hvisited := hnext.visited hpush ht.push
      rcases hv : visitAll next depth (a :: path) (next a) ⟨s.found ++ [a], s.finished⟩ with c | s'
        <;> rw [hv] at hnext hvisited
      · exact .stopped hpath hfound hnext
      · obtain ⟨hs', hg⟩ := hvisited
        exact .finished hpath hfound hnext
          (visitAll_runs hl (depth + 1) path rest _ hdepth (hs'.pop hg.done) ht.tail)
termination_by depth _ targets => (depth, targets.length)

/-- What a search that ends has listed. -/
structure Complete (next : α → List α) (root : α) (s : Search α) : Prop where
  nodup : s.found.Nodup
  perm : s.finished.Perm s.found
  ordered : Ordered next s.finished
  earliest : Earliest next s.found s.finished
  mem_found : ∀ a, a ∈ s.found ↔ Reaches next root a
  head : s.found.head? = some root

theorem Complete.acyclic {s : Search α} (hs : Complete next root s) : Acyclic next root :=
  hs.ordered.acyclic (hs.perm.mem_iff.2 ((hs.mem_found root).2 .refl))

omit [DecidableEq α] in
/-- Everything else that was found leads nowhere near the root, so the root is finished last. -/
theorem Complete.getLast {s : Search α} (hs : Complete next root s) :
    s.finished.getLast? = some root := by
  have hroot : root ∈ s.finished := hs.perm.mem_iff.2 ((hs.mem_found root).2 .refl)
  obtain ⟨pre, post, hp⟩ := List.append_of_mem hroot
  have hnd := hs.perm.nodup_iff.2 hs.nodup
  rw [hp] at hnd ⊢
  have hpre : ∀ a, Reaches next root a → a = root ∨ a ∈ pre := by
    intro a ha
    have hord := hs.ordered
    rw [hp] at hord
    rcases Relation.ReflTransGen.cases_head ha with rfl | ⟨b, hb, hba⟩
    · exact .inl rfl
    · exact .inr (hord.of_prefix.mem_of_reaches (hord pre root post rfl b hb) hba)
  rcases List.eq_nil_or_concat' post with rfl | ⟨post', a, rfl⟩
  · simp
  · have ha := hpre a ((hs.mem_found a).1 (hs.perm.mem_iff.1 (by simp [hp])))
    grind

section Run

variable (root : α) {depth : Nat} {leaders : List α} (hl : ∀ a, next a ≠ [] → a ∈ leaders)
  (hd : leaders.length < depth)

include hl hd

theorem run_runs : Runs next [] [root] start (run next depth root) := by
  have h : visitAll next depth [] [root] start = run next depth root := by
    rw [visitAll, List.foldlM_cons, run]
    exact bind_pure _
  rw [← h]
  exact visitAll_runs hl depth [] [root] start (by simpa using hd) (.start root) (ahead_root root)

theorem run_visited : Visited next root [] [root] start (run next depth root) :=
  (run_runs root hl hd).visited (.start root) (ahead_root root)

theorem run_error {c : Cycle α} (h : run next depth root = .error c) : c.Genuine next root := by
  have := run_visited root hl hd
  rw [h] at this
  exact this

theorem run_ok {s : Search α} (h : run next depth root = .ok s) : Complete next root s := by
  have := run_visited root hl hd
  rw [h] at this
  obtain ⟨hs, hg⟩ := this
  have hmem : ∀ a, a ∈ s.finished ↔ a ∈ s.found := by
    intro a
    rw [hs.mem_found]
    simp
  have hroot := hg.done root (by simp)
  refine ⟨hs.nodup, (List.perm_ext_iff_of_nodup hs.finished_nodup hs.nodup).2 hmem, hs.ordered,
    hs.earliest, fun a => ⟨hs.reached a, fun ha => ?_⟩, ?_⟩
  · exact (hmem a).1 (hs.ordered.mem_of_reaches hroot ha)
  · obtain ⟨l, hfirst⟩ := hg.first root (by simp) (by simp [start])
    simp [← hfirst, start]

theorem run_isOk_iff : (∃ s, run next depth root = .ok s) ↔ Acyclic next root := by
  constructor
  · rintro ⟨s, h⟩
    exact (run_ok root hl hd h).acyclic
  · intro h
    rcases hr : run next depth root with c | s
    · exact absurd h (run_error root hl hd hr).not_acyclic
    · exact ⟨s, rfl⟩

end Run

end Search

end ShaderGraph
