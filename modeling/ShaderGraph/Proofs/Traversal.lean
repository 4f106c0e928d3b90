import Mathlib.Data.List.Forall2
import ShaderGraph.Glsl.Word

/-!
# Steps that can fail

A list of steps that can fail succeeds exactly if every step does (`forM_eq_ok_iff`,
`mapM_eq_ok_iff`), and what it fails with is what one of the steps fails with (`OnlyFails.mapM`).
So words are replaced in a text exactly if an answer is found for each of them
(`replaceWords_isOk_iff`).
-/

namespace ShaderGraph

variable {ε α β : Type}

theorem exists_of_toBool {x : Except ε α} (h : x.toBool = true) : ∃ a, x = .ok a := by
  rcases x with e | a
  · cases h
  · exact ⟨a, rfl⟩

theorem exists_of_toOption {x : Except ε α} {f : α → β} {b : β} (h : x.toOption.map f = some b) :
    ∃ a, x = .ok a ∧ f a = b := by
  rcases x with e | a
  · cases h
  · exact ⟨a, rfl, Option.some.inj h⟩

theorem bind_eq_ok_iff (x : Except ε α) (f : α → Except ε β) (b : β) :
    (x >>= f) = .ok b ↔ ∃ a, x = .ok a ∧ f a = .ok b := by
  rcases x with e | a <;> simp [bind, Except.bind]

theorem mapError_eq_ok_iff {ε' : Type} (f : ε → ε') (x : Except ε α) (a : α) :
    x.mapError f = .ok a ↔ x = .ok a := by
  rcases x with e | a' <;> simp [Except.mapError]

theorem forM_eq_ok_iff (f : α → Except ε Unit) :
    ∀ l : List α, l.forM f = .ok () ↔ ∀ a ∈ l, f a = .ok ()
  | [] => by simp [pure, Except.pure]
  | a :: l => by
    rw [List.forall_mem_cons, ← forM_eq_ok_iff f l]
    change (f a >>= fun _ => l.forM f) = .ok () ↔ _
    rw [bind_eq_ok_iff]
    exact ⟨fun ⟨_, h, hl⟩ => ⟨h, hl⟩, fun ⟨h, hl⟩ => ⟨_, h, hl⟩⟩

theorem mapM_eq_ok_iff (f : α → Except ε β) : ∀ (l : List α) (r : List β),
    l.mapM f = .ok r ↔ List.Forall₂ (fun a b => f a = .ok b) l r
  | [], r => by
    rw [List.mapM_nil, List.forall₂_nil_left_iff]
    simp [pure, Except.pure, eq_comm]
  | a :: l, r => by
    rw [List.mapM_cons, bind_eq_ok_iff, List.forall₂_cons_left_iff]
    simp only [bind_eq_ok_iff, mapM_eq_ok_iff f l]
    constructor
    · rintro ⟨b, hb, bs, hbs, h⟩
      cases h
      exact ⟨b, bs, hb, hbs, rfl⟩
    · rintro ⟨b, bs, hb, hbs, rfl⟩
      exact ⟨b, hb, bs, hbs, rfl⟩

theorem mapM_isOk_iff (f : α → Except ε β) : ∀ l : List α,
    (∃ r, l.mapM f = .ok r) ↔ ∀ a ∈ l, ∃ b, f a = .ok b
  | [] => by simp [pure, Except.pure]
  | a :: l => by
    simp only [List.forall_mem_cons, ← mapM_isOk_iff f l, mapM_eq_ok_iff,
      List.forall₂_cons_left_iff]
    constructor
    · rintro ⟨_, b, bs, hb, hbs, -⟩
      exact ⟨⟨b, hb⟩, bs, hbs⟩
    · rintro ⟨⟨b, hb⟩, bs, hbs⟩
      exact ⟨_, b, bs, hb, hbs, rfl⟩

/-! ## Failures -/

/-- Whatever a step fails with is of a kind. -/
def OnlyFails (P : ε → Prop) (x : Except ε α) : Prop := ∀ e, x = .error e → P e

namespace OnlyFails

variable {P : ε → Prop}

theorem ok (a : α) : OnlyFails P (.ok a : Except ε α) := by
  intro e h
  cases h

theorem of_isOk {x : Except ε α} (h : ∃ a, x = .ok a) : OnlyFails P x := by
  obtain ⟨a, rfl⟩ := h
  exact ok a

theorem error {e : ε} (h : P e) : OnlyFails P (.error e : Except ε α) := by
  intro e' h'
  cases h'
  exact h

theorem bind {x : Except ε α} {f : α → Except ε β} (hx : OnlyFails P x)
    (hf : ∀ a, x = .ok a → OnlyFails P (f a)) : OnlyFails P (x >>= f) := by
  rcases x with e | a
  · exact error (hx e rfl)
  · exact hf a rfl

theorem mapM {f : α → Except ε β} : ∀ {l : List α}, (∀ a ∈ l, OnlyFails P (f a)) →
    OnlyFails P (l.mapM f)
  | [], _ => by
    rw [List.mapM_nil]
    exact ok []
  | a :: l, h => by
    rw [List.mapM_cons]
    refine bind (h a (by simp)) fun b _ => bind (mapM fun a' ha' => h a' (by simp [ha'])) ?_
    exact fun bs _ => ok _

theorem imp {Q : ε → Prop} {x : Except ε α} (h : OnlyFails P x) (hPQ : ∀ e, P e → Q e) :
    OnlyFails Q x := fun e he => hPQ e (h e he)

theorem forM {f : α → Except ε Unit} : ∀ {l : List α}, (∀ a ∈ l, OnlyFails P (f a)) →
    OnlyFails P (l.forM f)
  | [], _ => ok ()
  | a :: l, h => bind (h a (by simp)) fun _ _ => forM fun a' ha' => h a' (by simp [ha'])

theorem foldlM {f : β → α → Except ε β} : ∀ {l : List α} (b : β),
    (∀ b, ∀ a ∈ l, OnlyFails P (f b a)) → OnlyFails P (l.foldlM f b)
  | [], b, _ => ok b
  | a :: l, b, h => by
    rw [List.foldlM_cons]
    exact bind (h b a (by simp)) fun b' _ => foldlM b' fun b a' ha' => h b a' (by simp [ha'])

end OnlyFails

/-! ## Words -/

namespace Glsl

theorem mem_words (code word : String) :
    word ∈ words code ↔ .word word.toList ∈ scan none code.toList := by
  simp only [words, List.mem_filterMap]
  constructor
  · rintro ⟨_ | name, hm, h⟩
    · simp at h
    · simp only [Option.some.injEq] at h
      rw [← h]
      simpa using hm
  · intro h
    exact ⟨_, h, by simp⟩

theorem replaceWords_isOk_iff (rename : String → Except ε (Option String)) (code : String) :
    (∃ text, replaceWords rename code = .ok text) ↔
      ∀ word ∈ words code, ∃ answer, rename word = .ok answer := by
  have hpieces : (∃ text, replaceWords rename code = .ok text) ↔
      ∃ pieces, (scan none code.toList).mapM (Piece.replace rename) = .ok pieces := by
    simp only [replaceWords, bind_eq_ok_iff]
    constructor
    · rintro ⟨_, pieces, h, -⟩
      exact ⟨pieces, h⟩
    · rintro ⟨pieces, h⟩
      exact ⟨_, pieces, h, rfl⟩
  rw [hpieces, mapM_isOk_iff]
  constructor
  · intro h word hw
    obtain ⟨_, hr⟩ := h _ ((mem_words code word).1 hw)
    simp only [Piece.replace, String.ofList_toList, bind_eq_ok_iff] at hr
    obtain ⟨answer, ha, -⟩ := hr
    exact ⟨answer, ha⟩
  · rintro h (text | name) hp
    · exact ⟨text, rfl⟩
    · obtain ⟨answer, ha⟩ := h (String.ofList name) ((mem_words _ _).2 (by simpa using hp))
      simp only [Piece.replace, bind_eq_ok_iff]
      rcases answer with _ | text
      · exact ⟨name, _, ha, rfl⟩
      · exact ⟨text.toList, _, ha, rfl⟩

theorem replaceWords_onlyFails {P : ε → Prop} {rename : String → Except ε (Option String)}
    (h : ∀ word, OnlyFails P (rename word)) (code : String) :
    OnlyFails P (replaceWords rename code) := by
  refine .bind (.mapM ?_) fun pieces _ => .ok _
  rintro (text | name) -
  · exact .ok text
  · refine .bind (h _) fun answer _ => ?_
    rcases answer with _ | text
    · exact .ok name
    · exact .ok text.toList

end Glsl

end ShaderGraph
