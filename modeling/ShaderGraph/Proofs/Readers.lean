import Mathlib.Data.List.Basic
import ShaderGraph.Text.Parse

/-!
# What readers take

A reader takes the front of a text and leaves the rest (`Parse.Reads`). Readers in sequence take one
part after the other (`Parse.Reads.bind`), and a run of characters ends where a character follows
that is not of its kind.
-/

namespace ShaderGraph

/-! ## Runs of characters -/

section Runs

variable {p : Char → Bool} {a b : List Char}

theorem head?_dropWhile (cs : List Char) :
    ∀ c, (cs.dropWhile p).head? = some c → p c = false := by
  intro c h
  have := List.head?_dropWhile_not p cs
  rw [h] at this
  exact this

theorem takeWhile_append (ha : ∀ c ∈ a, p c = true) (hb : ∀ c, b.head? = some c → p c = false) :
    (a ++ b).takeWhile p = a := by
  rw [List.takeWhile_append_of_pos ha]
  rcases b with _ | ⟨c, b⟩
  · simp
  · rw [List.takeWhile_cons_of_neg (by simp [hb c rfl]), List.append_nil]

theorem dropWhile_append (ha : ∀ c ∈ a, p c = true) (hb : ∀ c, b.head? = some c → p c = false) :
    (a ++ b).dropWhile p = b := by
  rw [List.dropWhile_append_of_pos ha]
  rcases b with _ | ⟨c, b⟩
  · rfl
  · rw [List.dropWhile_cons_of_neg (by simp [hb c rfl])]

end Runs

/-! ## Readers -/

namespace Parse

variable {α β : Type}

/-- The reader gives a value and leaves the rest of a text. -/
def Reads (p : Parse α) (cs : List Char) (a : α) (rest : List Char) : Prop :=
  p cs = some (a, rest)

variable {p : Parse α} {cs rest t : List Char} {a : α} {b : β}

theorem reads_pure (a : α) (cs : List Char) : (pure a : Parse α).Reads cs a cs := rfl

theorem Reads.bind {f : α → Parse β} (h : p.Reads cs a t) (hf : (f a).Reads t b rest) :
    (p >>= f).Reads cs b rest := by
  change (p cs).bind (fun x => f x.1 x.2) = some (b, rest)
  rw [h]
  exact hf

theorem Reads.map (g : α → β) (h : p.Reads cs a rest) :
    (do return g (← p) : Parse β).Reads cs (g a) rest :=
  h.bind (reads_pure _ _)

theorem Reads.discard (h : p.Reads cs a rest) : (Functor.discard p).Reads cs () rest := by
  change (p cs).bind (fun x => some ((), x.2)) = some ((), rest)
  rw [h]
  rfl

theorem reads_get (cs : List Char) : (get : Parse (List Char)).Reads cs cs cs := rfl

theorem reads_peek (cs : List Char) : peek.Reads cs cs.head? cs := rfl

theorem reads_next (c : Char) (cs : List Char) : next.Reads (c :: cs) c cs := rfl

theorem reads_char (c : Char) (cs : List Char) : (char c).Reads (c :: cs) () cs := by
  refine Reads.discard (a := c) ((reads_next c cs).bind ?_)
  rw [if_pos (beq_self_eq_true c)]
  exact reads_pure _ _

theorem reads_span {p : Char → Bool} {a b : List Char} (ha : ∀ c ∈ a, p c = true)
    (hb : ∀ c, b.head? = some c → p c = false) : (span p).Reads (a ++ b) a b := by
  unfold Reads span
  rw [takeWhile_append ha hb, dropWhile_append ha hb]

theorem reads_tryText_false {text : String} (h : ¬ text.toList <+: cs) :
    (tryText text).Reads cs false cs := by
  unfold Reads tryText
  rw [if_neg (mt List.isPrefixOf_iff_prefix.1 h)]

end Parse

end ShaderGraph
