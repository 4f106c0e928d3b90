import ShaderGraph.Proofs.Lexemes

/-!
# Quoted texts read back

Each character inside quotes is read from what it is written as (`Ron.reads_stringRest_cons`),
whether it stands for itself, has an escape of its own or is written by its code point. So any text
is read back (`Ron.reads_string`).
-/

namespace ShaderGraph.Ron

open Parse

/-! ## Code points -/

theorem hexDigit?_digitChar : ∀ d < 16, hexDigit? d.digitChar = some d := by decide

theorem digitChar_ne_brace : ∀ d < 16, d.digitChar ≠ '}' := by decide

/-- The hexadecimal digits of a number. -/
theorem exists_hexDigits (n : Nat) : ∃ ds : List Nat, Nat.toDigits 16 n = ds.map Nat.digitChar ∧
    (∀ d ∈ ds, d < 16) ∧ ds.foldl (fun n d => n * 16 + d) 0 = n := by
  induction n using Nat.strong_induction_on with
  | _ n ih =>
    by_cases h : n < 16
    · exact ⟨[n], Nat.toDigits_of_lt_base h, List.forall_mem_singleton.2 h, by simp⟩
    · obtain ⟨ds, hdigits, hlt, hvalue⟩ := ih (n / 16) (by omega)
      refine ⟨ds ++ [n % 16], ?_, ?_, ?_⟩
      · rw [Nat.toDigits_of_base_le (by decide) (not_lt.1 h), hdigits, List.map_append]
        rfl
      · exact List.forall_mem_append.2 ⟨hlt, List.forall_mem_singleton.2 (Nat.mod_lt _ (by decide))⟩
      · rw [List.foldl_append, hvalue, List.foldl_cons, List.foldl_nil]
        omega

theorem reads_bracedDigits {ds : List Nat} (hds : ∀ d ∈ ds, d < 16) (rest : List Char) :
    ∀ n, ds.length ≤ n →
      (bracedDigits n).Reads (ds.map Nat.digitChar ++ '}' :: rest) ds ('}' :: rest) := by
  induction ds with
  | nil =>
    rintro (_ | n) -
    · exact reads_pure _ _
    · exact (reads_peek _).bind (reads_pure _ _)
  | cons d ds ih =>
    rintro (_ | n) hn
    · cases hn
    · obtain ⟨hd, hds⟩ := List.forall_mem_cons.1 hds
      refine (reads_peek _).bind ?_
      rw [List.map_cons, List.cons_append, List.head?_cons,
        if_neg fun h => digitChar_ne_brace d hd (Option.some.inj h)]
      refine (reads_next _ _).bind ?_
      rw [hexDigit?_digitChar d hd]
      exact (ih hds n (Nat.le_of_succ_le_succ hn)).bind (reads_pure _ _)

/-- A character is read from its code point. -/
theorem reads_escape_code (c : Char) (rest : List Char) :
    (escape true).Reads ('u' :: '{' :: (Nat.toDigits 16 c.toNat ++ '}' :: rest)) c rest := by
  have hvalid : c.toNat.isValidChar := c.valid
  obtain ⟨ds, hdigits, hds, hvalue⟩ := exists_hexDigits c.toNat
  have hlength : ds.length ≤ 6 := by
    have hlt : c.toNat < 16 ^ 6 := by
      rcases hvalid with h | h <;> omega
    have := (Nat.length_toDigits_le_iff (by decide) (by decide)).2 hlt
    rwa [hdigits, List.length_map] at this
  have hne : ¬ ds.isEmpty = true := by
    rw [List.isEmpty_iff]
    rintro rfl
    exact Nat.toDigits_ne_nil hdigits
  refine (reads_next _ _).bind ((reads_char _ _).bind ?_)
  rw [hdigits]
  refine (reads_bracedDigits hds rest 6 hlength).bind ?_
  rw [if_neg hne]
  refine (reads_char _ _).bind ?_
  simp only
  rw [hvalue, if_pos hvalid, Char.ofNat_toNat]
  exact reads_pure _ _

/-! ## Characters inside quotes -/

theorem reads_stringRest_escaped {bound : Nat} {c : Char} {cs mid tail rest : List Char}
    (hc : (escape true).Reads cs c mid)
    (h : (stringRest (escape true) bound).Reads mid tail rest) :
    (stringRest (escape true) (bound + 1)).Reads ('\\' :: cs) (c :: tail) rest :=
  (reads_next _ _).bind (hc.bind (h.bind (reads_pure _ _)))

theorem reads_stringRest_plain {bound : Nat} {c : Char} {cs tail rest : List Char}
    (hquote : c ≠ '"') (hslash : c ≠ '\\')
    (h : (stringRest (escape true) bound).Reads cs tail rest) :
    (stringRest (escape true) (bound + 1)).Reads (c :: cs) (c :: tail) rest := by
  refine (reads_next _ _).bind ?_
  split
  · exact absurd rfl hquote
  · exact absurd rfl hslash
  · exact h.bind (reads_pure _ _)

/-- A character inside quotes is read from what it is written as. -/
theorem reads_stringRest_cons {bound : Nat} {c : Char} {cs tail rest : List Char}
    (h : (stringRest (escape true) bound).Reads cs tail rest) :
    (stringRest (escape true) (bound + 1)).Reads (escapeChar true c ++ cs) (c :: tail) rest := by
  have hown : ∀ d, (escape true).Reads (d :: cs) c cs →
      (stringRest (escape true) (bound + 1)).Reads (['\\', d] ++ cs) (c :: tail) rest :=
    fun d hd => reads_stringRest_escaped hd h
  unfold escapeChar
  simp only [if_true]
  split_ifs with hquote hsingle hline htab hreturn hnull
  · rcases hquote with rfl | rfl
    · exact hown _ rfl
    · exact hown _ rfl
  · exact hown _ (by rw [hsingle]; rfl)
  · exact hown _ (by rw [hline]; rfl)
  · exact hown _ (by rw [htab]; rfl)
  · exact hown _ (by rw [hreturn]; rfl)
  · exact hown _ (by rw [hnull]; rfl)
  · exact reads_stringRest_plain (fun h => hquote (.inl h)) (fun h => hquote (.inr h)) h
  · have hcode := reads_stringRest_escaped (reads_escape_code c cs) h
    simpa using hcode

theorem reads_stringRest (cs rest : List Char) : ∀ bound, cs.length < bound →
    (stringRest (escape true) bound).Reads (cs.flatMap (escapeChar true) ++ '"' :: rest)
      cs rest := by
  induction cs with
  | nil =>
    rintro (_ | bound) hbound
    · cases hbound
    · exact (reads_next _ _).bind (reads_pure _ _)
  | cons c cs ih =>
    rintro (_ | bound) hbound
    · cases hbound
    · rw [List.flatMap_cons, List.append_assoc]
      exact reads_stringRest_cons (ih bound (Nat.lt_of_succ_lt_succ hbound))

theorem length_le_flatMap_escapeChar (cs : List Char) :
    cs.length ≤ (cs.flatMap (escapeChar true)).length := by
  induction cs with
  | nil => exact Nat.le_refl _
  | cons c cs ih =>
    have hpos : 0 < (escapeChar true c).length := by
      unfold escapeChar
      split_ifs <;> simp
    rw [List.flatMap_cons, List.length_append, List.length_cons]
    omega

/-- Any text is read back from its quoted form. -/
theorem reads_string (s : String) (rest : List Char) :
    string.Reads ((quoted true s).toList ++ rest) s rest := by
  have htext : (quoted true s).toList ++ rest =
      '"' :: (s.toList.flatMap (escapeChar true) ++ '"' :: rest) := by
    rw [quoted, String.toList_ofList, List.cons_append, List.append_assoc]
    rfl
  have hbound : s.toList.length <
      (s.toList.flatMap (escapeChar true) ++ '"' :: rest).length + 1 := by
    have := length_le_flatMap_escapeChar s.toList
    rw [List.length_append]
    omega
  rw [htext]
  refine (reads_next _ _).bind ((reads_get _).bind ?_)
  refine (reads_stringRest s.toList rest _ hbound).bind ?_
  rw [String.ofList_toList]
  exact reads_pure _ _

end ShaderGraph.Ron
