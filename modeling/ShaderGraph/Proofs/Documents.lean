import ShaderGraph.Proofs.QuotedTexts

/-!
# Documents read back

A document spells a value for a reader if the reader gives the value for what the document is
written as, at any indent and in front of any delimiter (`Ron.Spells`). Items between brackets are
read one after the other (`Ron.Items.reads_eachItem`), so records, lists and tuples spell what their
parts spell.
-/

namespace ShaderGraph.Ron

open Parse

variable {α β σ : Type}

/-! ## Items between brackets -/

/-- The characters that no value starts with: closing brackets, blanks, and what starts comments and
attributes. -/
def barred : List Char :=
  [')', ']', '/', '#', ' ', '\t', '\n', '\r', '\x0b', '\x0c', '\u0085', '\u200e', '\u200f',
    '\u2028', '\u2029']

def opensValue (c : Char) : Bool := !barred.contains c

theorem opensValue_of {p : Char → Bool} (hp : barred.any p = false) {c : Char}
    (h : p c = true) : opensValue c = true := by
  rw [opensValue, Bool.not_eq_true', Bool.eq_false_iff]
  intro hm
  exact List.any_eq_false.1 hp c (List.contains_iff_mem.1 hm) h

theorem isBlank_of_opensValue {c : Char} (h : opensValue c = true) : isBlank c = false := by
  rw [Bool.eq_false_iff]
  intro hblank
  have hm : c ∈ barred :=
    List.mem_append_right [')', ']', '/', '#'] (List.contains_iff_mem.1 hblank)
  rw [opensValue, List.contains_iff_mem.2 hm] at h
  cases h

def Opens (cs : List Char) : Prop := cs.head?.any opensValue = true

theorem Opens.exists_cons {cs : List Char} (h : Opens cs) :
    ∃ c tail, cs = c :: tail ∧ opensValue c = true := by
  rcases cs with _ | ⟨c, tail⟩
  · cases h
  · exact ⟨c, tail, rfl, h⟩

theorem Opens.append {cs : List Char} (h : Opens cs) (rest : List Char) : Opens (cs ++ rest) := by
  obtain ⟨c, tail, rfl, hc⟩ := h.exists_cons
  exact hc

theorem Opens.solid {cs : List Char} (h : Opens cs) : Solid cs := by
  obtain ⟨c, tail, rfl, hc⟩ := h.exists_cons
  rintro _ ⟨⟩
  refine ⟨isBlank_of_opensValue hc, ?_⟩
  rintro rfl
  cases hc

theorem Opens.head?_ne {cs : List Char} (h : Opens cs) {c : Char} (hc : opensValue c = false) :
    cs.head? ≠ some c := by
  intro hhead
  rw [Opens, hhead, Option.any_some, hc] at h
  cases h

/-- The step takes the text, up to a delimiter. -/
def Takes (step : σ → Parse σ) (s : σ) (cs : List Char) (s' : σ) : Prop :=
  Opens cs ∧ ∀ rest, Stops rest → (step s).Reads (cs ++ rest) s' rest

/-- The text is items that a step takes one after the other, with commas between them and blanks
after the commas. -/
inductive Items (step : σ → Parse σ) : σ → List Char → σ → Prop
  | done {s : σ} : Items step s [] s
  | last {s s' : σ} {cs : List Char} : Takes step s cs s' → Items step s cs s'
  | next {s s' s'' : σ} {cs ws more : List Char} : Takes step s cs s' → Blanks ws →
      Items step s' more s'' → Items step s (cs ++ ',' :: (ws ++ more)) s''

def closings : List Char := [')', ']']

theorem eq_or_of_mem_closings {c : Char} (h : c ∈ closings) : c = ')' ∨ c = ']' := by
  simpa [closings] using h

section Brackets

variable {step : σ → Parse σ} {s s' : σ} {cs ws rest : List Char} {closing : Char}
  (hclosing : closing ∈ closings)
include hclosing

theorem closing_stops : Stops (closing :: rest) := by
  rcases eq_or_of_mem_closings hclosing with rfl | rfl
  · exact stops_cons (by decide) rest
  · exact stops_cons (by decide) rest

theorem reads_more_false (hws : Blanks ws) (afterComma : Bool) :
    (more closing afterComma).Reads (ws ++ closing :: rest) false (closing :: rest) := by
  refine (reads_skipBlanks hws (closing_stops hclosing).solid).bind ((reads_peek _).bind ?_)
  rw [if_pos (by rfl)]
  exact reads_pure _ _

theorem reads_more_true (hws : Blanks ws) (hcs : Opens cs) :
    (more closing true).Reads (ws ++ cs) true cs := by
  have hbarred : opensValue closing = false := by
    rcases eq_or_of_mem_closings hclosing with rfl | rfl
    · rfl
    · rfl
  refine (reads_skipBlanks hws hcs.solid).bind ((reads_peek _).bind ?_)
  rw [if_neg (hcs.head?_ne hbarred)]
  exact reads_pure _ _

theorem reads_comma_closing : comma.Reads (closing :: rest) false (closing :: rest) := by
  refine reads_comma_false (closing_stops hclosing).solid fun h => ?_
  rw [Option.some.inj h] at hclosing
  exact absurd hclosing (by decide)

theorem Items.solid (h : Items step s cs s') : Solid (cs ++ closing :: rest) := by
  cases h with
  | done => exact (closing_stops hclosing).solid
  | last h => exact (h.1.append _).solid
  | next h => exact ((h.1.append _).append _).solid

/-- Items are read up to the closing character. -/
theorem Items.reads_eachItem (h : Items step s cs s') : ∀ {ws : List Char}, Blanks ws →
    ∀ {bound : Nat}, cs.length < bound →
      (eachItem closing step bound true s).Reads (ws ++ (cs ++ closing :: rest)) s'
        (closing :: rest) := by
  induction h with
  | done =>
    rintro ws hws (_ | bound) hbound
    · cases hbound
    · exact (reads_more_false hclosing hws true).bind (reads_pure _ _)
  | last h =>
    rintro ws hws (_ | _ | bound) hbound
    · cases hbound
    · obtain ⟨c, tail, rfl, -⟩ := h.1.exists_cons
      cases Nat.lt_of_succ_lt_succ hbound
    · refine (reads_more_true hclosing hws (h.1.append _)).bind ?_
      refine (h.2 _ (closing_stops hclosing)).bind ?_
      refine (reads_comma_closing hclosing).bind ?_
      exact (reads_more_false hclosing blanks_nil false).bind
        (reads_pure _ _)
  | next h hws' hmore ih =>
    rintro ws hws (_ | bound) hbound
    · cases hbound
    · rw [List.append_assoc, List.cons_append, List.append_assoc]
      refine (reads_more_true hclosing hws (h.1.append _)).bind ?_
      refine (h.2 _ (stops_cons (by decide) _)).bind ?_
      refine (reads_comma hws' (hmore.solid hclosing)).bind ?_
      refine ih blanks_nil ?_
      simp only [List.length_append, List.length_cons] at hbound
      omega

theorem Items.reads_bracketed (h : Items step s cs s') (hws : Blanks ws) (opening : Char)
    (rest : List Char) : (bracketed opening closing step s).Reads
      (opening :: (ws ++ (cs ++ closing :: rest))) s' rest := by
  refine (reads_char _ _).bind ?_
  refine Reads.bind (a := s') (t := closing :: rest) ?_
    ((reads_char _ _).bind (reads_pure _ _))
  refine (reads_get _).bind ((h.reads_eachItem hclosing hws ?_).bind ?_)
  · simp only [List.length_append, List.length_cons]
    omega
  · exact (closing_stops hclosing).solid.reads_skipBlanks.bind (reads_pure _ _)

end Brackets

/-! ## Texts of items -/

/-- The indent inside brackets. -/
theorem Blanks.deeper {indent : String} (h : Blanks indent.toList) :
    Blanks (indent ++ "    ").toList := by
  have hspaces : Blanks "    ".toList := by decide
  rw [String.toList_append]
  exact List.forall_mem_append.2 ⟨h, hspaces⟩

/-- A step takes one text after the other. -/
inductive Steps (step : σ → Parse σ) : σ → List String → σ → Prop
  | nil {s : σ} : Steps step s [] s
  | cons {s s' s'' : σ} {text : String} {texts : List String} : Takes step s text.toList s' →
      Steps step s' texts s'' → Steps step s (text :: texts) s''

namespace Steps

variable {step : σ → Parse σ} {s s' : σ} {texts : List String}

/-- On lines of their own, with a comma after each. -/
theorem items_lines (h : Steps step s texts s') {indent : String} (hindent : Blanks indent.toList) :
    ∃ ws cs, Blanks ws ∧ Items step s cs s' ∧ '\n' :: ((String.join
      (texts.map fun line => indent ++ "    " ++ line ++ ",\n")).toList ++ indent.toList) =
        ws ++ cs := by
  have hline : Blanks ['\n'] := by decide
  induction h with
  | nil =>
    exact ⟨'\n' :: indent.toList, [], List.forall_mem_append.2 ⟨hline, hindent⟩, .done,
      by simp⟩
  | @cons s _ _ text texts htext _ ih =>
    obtain ⟨ws, cs, hws, hitems, heq⟩ := ih
    refine ⟨'\n' :: (indent ++ "    ").toList, text.toList ++ ',' :: (ws ++ cs),
      List.forall_mem_append.2 ⟨hline, hindent.deeper⟩, .next htext hws hitems, ?_⟩
    rw [← heq]
    simp

theorem reads_bracketed (h : Steps step s texts s') {indent opening closing : String} {o c : Char}
    (hopening : opening.toList = [o]) (hclosing : closing.toList = [c]) (hc : c ∈ closings)
    (hindent : Blanks indent.toList) (rest : List Char) : (bracketed o c step s).Reads
      ((Document.bracketed opening closing indent texts).toList ++ rest) s' rest := by
  rw [Document.bracketed]
  cases h with
  | nil =>
    have hitems : Items step s [] s := .done
    simpa [hopening, hclosing] using hitems.reads_bracketed hc blanks_nil o rest
  | cons htext htexts =>
    obtain ⟨ws, cs, hws, hitems, heq⟩ := (Steps.cons htext htexts).items_lines hindent
    have hreads := hitems.reads_bracketed hc hws o rest
    rw [← List.append_assoc, ← heq] at hreads
    simpa [hopening, hclosing] using hreads

/-- On one line, with commas between them. -/
theorem items_intercalate (h : Steps step s texts s') :
    Items step s (", ".intercalate texts).toList s' := by
  have hspace : Blanks [' '] := by decide
  induction h with
  | nil => exact .done
  | @cons _ _ _ text texts htext htexts ih =>
    cases htexts with
    | nil =>
      rw [String.intercalate_singleton]
      exact .last htext
    | cons htext' htexts =>
      have hitems := Items.next htext hspace ih
      rw [String.intercalate_cons_cons]
      simpa using hitems

end Steps

theorem exists_toList_bracketed (opening closing indent : String) (lines : List String) :
    ∃ tail, (Document.bracketed opening closing indent lines).toList = opening.toList ++ tail := by
  rw [Document.bracketed]
  split_ifs
  · exact ⟨_, String.toList_append⟩
  · simp only [String.toList_append, List.append_assoc]
    exact ⟨_, rfl⟩

/-! ## Documents -/

/-- The document is read as a value, at any indent and up to a delimiter. -/
structure Spells (p : Parse α) (d : Document) (a : α) : Prop where
  opens : ∀ indent, Opens (d.render indent).toList
  reads : ∀ indent : String, Blanks indent.toList → ∀ rest, Stops rest →
    p.Reads ((d.render indent).toList ++ rest) a rest

theorem Spells.map {p : Parse α} {d : Document} {a : α} (g : α → β) (h : Spells p d a) :
    Spells (do return g (← p)) d (g a) :=
  ⟨h.opens, fun indent hindent rest hrest => (h.reads indent hindent rest hrest).map g⟩

theorem IsIdent.opens {cs : List Char} (h : IsIdent cs) : Opens cs := by
  obtain ⟨hhead, -⟩ := h
  rcases cs with _ | ⟨c, cs⟩
  · cases hhead
  · exact opensValue_of (p := startsName) (by decide +kernel) hhead

theorem AllDigits.opens {digits : List Char} (h : AllDigits digits) (hne : digits ≠ []) :
    Opens digits := by
  obtain ⟨c, cs, rfl⟩ := List.exists_cons_of_ne_nil hne
  exact opensValue_of (p := Char.isDigit) (by decide) (h c List.mem_cons_self)

theorem opens_write {f : Format} (hf : f.Regular) (x : Binary f) :
    Opens (Document.layout.write x).toList := by
  rcases x with ⟨s, p⟩ | s | s
  · obtain ⟨whole, fraction, htext, hne, hwhole, -⟩ := Document.exists_parts_write hf s p
    rw [htext]
    cases s
    · exact (AllDigits.opens hwhole hne).append _
    · rfl
  · cases s
    · exact (rfl : Opens "inf".toList)
    · exact (rfl : Opens "-inf".toList)
  · cases s
    · exact (rfl : Opens "NaN".toList)
    · exact (rfl : Opens "-NaN".toList)

theorem spells_float {f : Format} (hf : f.Regular) {suffixes : List String} (x : Binary f)
    (hsuffixes : ∀ suffix ∈ suffixes, suffix.toList.head?.any isInner = true) :
    Spells (float f suffixes) (.ofBinary x) x := by
  refine ⟨fun _ => ?_, fun _ _ rest hrest => ?_⟩
  · rw [Document.ofBinary, Document.render]
    exact opens_write hf x
  · rw [Document.ofBinary, Document.render]
    exact reads_float hf x hsuffixes hrest

theorem spells_single (x : Single) : Spells single (.ofBinary x) x :=
  spells_float Format.regular_single x (by decide)

theorem spells_double (x : Double) : Spells double (.ofBinary x) x :=
  spells_float Format.regular_double x (by decide)

theorem spells_word32 (n : UInt32) : Spells word32 (.ofNat n.toNat) n := by
  refine ⟨fun _ => ?_, fun _ _ rest hrest => ?_⟩
  · rw [Document.ofNat, Document.render, String.toList_ofList]
    exact AllDigits.opens (allDigits_toDigits _) Nat.toDigits_ne_nil
  · rw [Document.ofNat, Document.render, String.toList_ofList]
    exact reads_word32 n hrest

theorem spells_string (s : String) : Spells string (.ofString s) s := by
  refine ⟨fun _ => ?_, fun _ _ rest _ => ?_⟩
  · rw [Document.ofString, Document.render, quoted, String.toList_ofList]
    rfl
  · rw [Document.ofString, Document.render]
    exact reads_string s rest

theorem spells_oneOf {names : List (String × α)} {n : String} {a : α} (hname : IsIdent n.toList)
    (hfind : names.find? (·.1 = n) = some (n, a)) : Spells (oneOf names) (.plain n) a := by
  refine ⟨fun _ => ?_, fun _ _ rest hrest => ?_⟩
  · rw [Document.render]
    exact hname.opens
  · rw [Document.render]
    refine (reads_name hname true hrest).bind ?_
    rw [hfind]
    exact reads_pure _ _

section Option

variable {item : Parse α} {document : α → Document}

theorem spells_none (e : Extensions) : Spells (option e item) (.ofOption none) none := by
  refine ⟨fun _ => ?_, fun _ _ rest hrest => ?_⟩
  · rw [Document.ofOption, Document.render]
    rfl
  · rw [Document.ofOption, Document.render]
    exact (reads_tryWord hrest).bind (reads_pure _ _)

theorem spells_some (e : Extensions) {d : Document} {a : α} (h : Spells item d a) :
    Spells (option e item) (.ofOption (some d)) (some a) := by
  refine ⟨fun indent => ?_, fun indent hindent rest hrest => ?_⟩
  · rw [Document.ofOption, Document.render, String.toList_append, String.toList_append]
    exact (Opens.append (rfl : Opens "Some(".toList) _).append _
  · have htext : (Document.render indent (.ofOption (some d))).toList ++ rest =
        "Some".toList ++ '(' :: ((d.render indent).toList ++ ')' :: rest) := by
      rw [Document.ofOption, Document.render]
      simp
    have hnone : ¬ "None".toList <+: "Some".toList ++ '(' :: ((d.render indent).toList ++
        ')' :: rest) := not_prefix_append (by decide) (by decide)
    have hclosing : ')' ∈ closings := by decide
    rw [htext]
    refine (reads_tryWord_false hnone).bind ?_
    refine (reads_tryWord (stops_cons (by decide) _)).bind ?_
    refine (stops_cons (by decide) _).solid.reads_skipBlanks.bind ?_
    refine (reads_peek _).bind ?_
    rw [if_pos (by rfl)]
    refine (reads_char _ _).bind ?_
    refine ((h.opens indent).append _).solid.reads_skipBlanks.bind ?_
    refine (h.reads indent hindent _ (closing_stops hclosing)).bind ?_
    refine (reads_comma_closing hclosing).discard.bind ?_
    exact (reads_char _ _).bind (reads_pure _ _)

theorem spells_option (e : Extensions) (o : Option α) (h : ∀ a, Spells item (document a) a) :
    Spells (option e item) (.ofOption (o.map document)) o := by
  cases o with
  | none => exact spells_none e
  | some a => exact spells_some e (h a)

end Option

/-! ## Lists and tuples -/

section Items

variable {item : Parse α} {document : α → Document}

/-- The items that are read, in front of those that are read already. -/
theorem steps_items (indent : String) (hindent : Blanks indent.toList) :
    ∀ (as before : List α), (∀ a ∈ as, Spells item (document a) a) →
      Steps (fun items : List α => do return items ++ [← item]) before
        (Document.renderItems indent (as.map document)) (before ++ as)
  | [], before, _ => by
    rw [List.map_nil, Document.renderItems, List.append_nil]
    exact .nil
  | a :: as, before, h => by
    obtain ⟨ha, has⟩ := List.forall_mem_cons.1 h
    have hsteps := steps_items indent hindent as (before ++ [a]) has
    rw [List.append_assoc, List.singleton_append] at hsteps
    rw [List.map_cons, Document.renderItems]
    refine .cons ⟨ha.opens indent, fun rest hrest => ?_⟩ hsteps
    exact (ha.reads indent hindent rest hrest).map (before ++ [·])

theorem spells_list (as : List α) (h : ∀ a ∈ as, Spells item (document a) a) :
    Spells (list item) (.list (as.map document)) as := by
  refine ⟨fun indent => ?_, fun indent hindent rest _ => ?_⟩
  · obtain ⟨tail, htail⟩ := exists_toList_bracketed "[" "]" indent
      (Document.renderItems (indent ++ "    ") (as.map document))
    rw [Document.render, htail]
    exact Opens.append (rfl : Opens "[".toList) _
  · rw [Document.render]
    exact (steps_items _ hindent.deeper as [] h).reads_bracketed rfl rfl (by decide) hindent rest

theorem spells_tuple (as : List α) (h : ∀ a ∈ as, Spells item (document a) a) :
    Spells (tuple item as.length) (.tuple (as.map document)) as := by
  refine ⟨fun indent => ?_, fun indent hindent rest _ => ?_⟩
  · rw [Document.render, String.toList_append, String.toList_append]
    exact (Opens.append (rfl : Opens "(".toList) _).append _
  · have hitems := (steps_items indent hindent as [] h).items_intercalate
    have hclosing : ')' ∈ closings := by decide
    have hreads := hitems.reads_bracketed hclosing blanks_nil '(' rest
    have htext : (Document.render indent (.tuple (as.map document))).toList ++ rest =
        '(' :: ([] ++ ((", ".intercalate (Document.renderItems indent (as.map document))).toList ++
          ')' :: rest)) := by
      rw [Document.render]
      simp
    rw [htext]
    refine hreads.bind ?_
    rw [List.nil_append, if_pos rfl]
    exact reads_pure _ _

end Items

/-! ## Records -/

theorem reads_colon {cs : List Char} (hcs : Solid cs) : colon.Reads (':' :: ' ' :: cs) () cs := by
  refine (stops_cons (by decide) _).solid.reads_skipBlanks.bind ?_
  exact (reads_char _ _).bind (reads_skipBlanks (by decide : Blanks [' ']) hcs)

/-- The fields are known, none comes twice, and each spells what it changes. -/
inductive Fills (known : List String) (read : String → σ → Parse σ) :
    List String → σ → List (String × Document) → σ → Prop
  | nil {seen : List String} {s : σ} : Fills known read seen s [] s
  | cons {seen : List String} {s s' s'' : σ} {field : String} {d : Document}
      {fields : List (String × Document)} : IsIdent field.toList → field ∈ known → field ∉ seen →
      Spells (read field s) d s' → Fills known read (field :: seen) s' fields s'' →
      Fills known read seen s ((field, d) :: fields) s''

section Records

variable {e : Extensions} {budget : Nat} {known seen : List String} {read : String → σ → Parse σ}
  {s s' : σ} {entries : List (String × Document)}

theorem stops_bracketed (indent : String) (lines : List String) (rest : List Char) :
    Stops ((Document.bracketed "(" ")" indent lines).toList ++ rest) := by
  obtain ⟨tail, htail⟩ := exists_toList_bracketed "(" ")" indent lines
  rw [htail, List.append_assoc]
  exact stops_cons (by decide) _

theorem IsIdent.head?_any_isNameRest {cs : List Char} (h : IsIdent cs) (rest : List Char) :
    (cs ++ rest).head?.any isNameRest = true := by
  obtain ⟨c, tail, rfl, -⟩ := h.opens.exists_cons
  exact h.2 c List.mem_cons_self

/-- The step that reads a field. -/
def fieldStep (e : Extensions) (budget : Nat) (known : List String) (read : String → σ → Parse σ) :
    σ × List String → Parse (σ × List String) := fun (state, seen) => do
  let field ← name true
  if field ∈ seen then failure
  colon
  if field ∈ known then return (← read field state, field :: seen)
  skip e budget .plain
  return (state, seen)

theorem Fills.steps (h : Fills known read seen s entries s') {indent : String}
    (hindent : Blanks indent.toList) : Steps (fieldStep e budget known read) (s, seen)
      (Document.renderFields indent entries) (s', (entries.map Prod.fst).reverse ++ seen) := by
  induction h with
  | nil =>
    rw [Document.renderFields]
    exact .nil
  | @cons seen s t s' field d entries hname hknown hseen hd _ ih =>
    rw [Document.renderFields, List.map_cons, List.reverse_cons, List.append_assoc,
      List.singleton_append]
    refine .cons ⟨?_, fun rest hrest => ?_⟩ ih
    · rw [String.toList_append, String.toList_append]
      exact (hname.opens.append _).append _
    · have htext : (field ++ ": " ++ d.render indent).toList ++ rest =
          field.toList ++ ':' :: ' ' :: ((d.render indent).toList ++ rest) := by simp
      rw [htext]
      refine (reads_name hname true (stops_cons (by decide) _)).bind ?_
      simp only
      rw [if_neg hseen]
      refine (reads_colon ((hd.opens indent).append _).solid).bind ?_
      rw [if_pos hknown]
      exact (hd.reads indent hindent rest hrest).bind (reads_pure _ _)

theorem Fills.reads_fields (h : Fills known read [] s entries s') {indent : String}
    (hindent : Blanks indent.toList) (rest : List Char) : (fields e budget known read s).Reads
      ((Document.bracketed "(" ")" indent
        (Document.renderFields (indent ++ "    ") entries)).toList ++ rest)
      (s', (entries.map Prod.fst).reverse) rest := by
  have hsteps : Steps (fieldStep e budget known read) _ _ _ := h.steps hindent.deeper
  rw [List.append_nil] at hsteps
  exact hsteps.reads_bracketed rfl rfl (by decide) hindent rest

theorem Fills.spells_record (h : Fills known read [] s entries s') {recordName : String}
    (hname : IsIdent recordName.toList) :
    Spells (record e budget recordName known read s) (.record recordName entries) s' := by
  refine ⟨fun indent => ?_, fun indent hindent rest _ => ?_⟩
  · rw [Document.render, String.toList_append]
    exact hname.opens.append _
  · rw [Document.render, String.toList_append, List.append_assoc]
    have hstop := stops_bracketed indent (Document.renderFields (indent ++ "    ") entries) rest
    refine (reads_peek _).bind ?_
    rw [if_pos (hname.head?_any_isNameRest _)]
    refine (reads_name hname true hstop).bind ?_
    rw [if_neg (not_not_intro rfl)]
    refine hstop.solid.reads_skipBlanks.bind ?_
    exact (h.reads_fields hindent rest).map Prod.fst

end Records

/-! ## Whole documents -/

/-- A document of one value is read as this value. -/
theorem document_render {value : Extensions → Parse α} {d : Document} {a : α}
    (h : Spells (value .none) d a) : document value (d.render "") = some a := by
  have hopens := h.opens ""
  have hhash : (d.render "").toList.head? ≠ some '#' := hopens.head?_ne rfl
  have hvalue := h.reads "" (List.forall_mem_nil _) [] stops_nil
  rw [List.append_nil] at hvalue
  have hattributes : (attributes .none ((d.render "").length + 1)).Reads (d.render "").toList .none
      (d.render "").toList := by
    refine (reads_peek _).bind ?_
    rw [if_pos hhash]
    exact reads_pure _ _
  have hwhole : Reads (do
      skipBlanks
      let e ← attributes .none ((d.render "").length + 1)
      let a ← value e
      skipBlanks
      return a) (d.render "").toList a [] := by
    refine hopens.solid.reads_skipBlanks.bind (hattributes.bind (hvalue.bind ?_))
    exact solid_nil.reads_skipBlanks.bind (reads_pure _ _)
  unfold Reads at hwhole
  simp only [document, Parse.run?, hwhole]

end ShaderGraph.Ron
