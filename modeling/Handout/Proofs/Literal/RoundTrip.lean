/-
  Handout.Proofs.Literal.RoundTrip — a literal that is written is read again.

  The readers go through what was written constructor by constructor: a value is read
  from its text up to what may follow it (`value_write`), whatever its depth, and so are
  the items of a list and the entries of a dict. A dict is a table, so the table of its
  entries is the dict. Where floats are finite the whole text is read back, on its own
  (`parse_render`) and in an assignment (`parseAssignment_renderAssignment`).
-/

import Handout.Proofs.Literal.Reader
import Handout.Proofs.Table

namespace Handout.Literal

/-! ## Properties of all nodes -/

mutual

/-- Every value in a value, itself included, is one that `p` holds of. -/
def All (p : Literal → Prop) : Literal → Prop
  | .list vs => p (.list vs) ∧ AllItems p vs
  | .dict es => p (.dict es) ∧ AllEntries p es
  | v => p v

def AllItems (p : Literal → Prop) : List Literal → Prop
  | [] => True
  | v :: rest => All p v ∧ AllItems p rest

def AllEntries (p : Literal → Prop) : List (String × Literal) → Prop
  | [] => True
  | (_, v) :: rest => All p v ∧ AllEntries p rest

end

/-- A float is finite. -/
def IsFinite : Literal → Prop
  | .float d => d.isFinite = true
  | _ => True

/-- The entries of a dict are a table. -/
def IsTable : Literal → Prop
  | .dict es => Table.Sorted es
  | _ => True

/-! ## Starts -/

theorem head_of_isNumber {cs : List Char} {v : Literal} (h : IsNumber cs v) : ∃ c r, cs = c :: r ∧ BeginsValue c := by
  obtain ⟨c, r, heq, hc, -⟩ := h [] .nothing
  refine ⟨c, r, by simpa using heq, ?_⟩
  rcases hc with rfl | hc
  · exact beginsValue_of_mem _ (by decide)
  · exact beginsValue_of_isDigit hc

/-- Every value begins with such a character. -/
theorem write_head (depth : Nat) {v : Literal} (h : v.All IsFinite) :
    ∃ c r, write depth v = c :: r ∧ BeginsValue c := by
  cases v with
  | null => exact ⟨'N', _, rfl, beginsValue_of_mem _ (by decide)⟩
  | bool b =>
    cases b with
    | false => exact ⟨'F', _, rfl, beginsValue_of_mem _ (by decide)⟩
    | true => exact ⟨'T', _, rfl, beginsValue_of_mem _ (by decide)⟩
  | int n => exact head_of_isNumber (isNumber_writeInt n)
  | float d => exact head_of_isNumber (isNumber_writeFloat h)
  | text t => exact ⟨'\'', _, rfl, beginsValue_of_mem _ (by decide)⟩
  | list vs => cases vs <;> exact ⟨'[', _, rfl, beginsValue_of_mem _ (by decide)⟩
  | dict es => cases es <;> exact ⟨'\x7b', _, rfl, beginsValue_of_mem _ (by decide)⟩

theorem skipTrivia_write (depth : Nat) {v : Literal} (h : v.All IsFinite) (rest : List Char) :
    skipTrivia (write depth v ++ rest) = write depth v ++ rest := by
  obtain ⟨c, r, hwrite, hc⟩ := write_head depth h
  rw [hwrite, List.cons_append, skipTrivia_start hc.toIsStart]

theorem skipTrivia_indent (depth : Nat) (s : List Char) : skipTrivia (indent depth ++ s) = skipTrivia s :=
  skipTrivia_blanks (fun c hc => by rw [List.eq_of_mem_replicate hc]; decide) s

theorem skipTrivia_newline (s : List Char) : skipTrivia ('\n' :: s) = skipTrivia s := skipTrivia_blank (by decide) s

theorem skipTrivia_space (s : List Char) : skipTrivia (' ' :: s) = skipTrivia s := skipTrivia_blank (by decide) s

/-! ## Values -/

theorem value_of_isNumber {s cs rest : List Char} {v : Literal} (hs : skipTrivia s = cs ++ rest) (h : IsNumber cs v)
    (hrest : Follows rest) : Took (value s) v rest := by
  obtain ⟨c, r, heq, hc, htook⟩ := h rest hrest
  exact value_number (hs.trans heq) (hc.imp_right fun hc => Or.inr (Or.inr hc)) htook

theorem value_quote {s rest : List Char} {text : String} (hs : skipTrivia s = quote text.toList ++ rest)
    (hrest : Follows rest) : Took (value s) (.text text) rest := by
  have hquote : quote text.toList ++ rest = '\'' :: (text.toList.flatMap quoteChar ++ '\'' :: rest) := by
    simp [quote]
  have htook := value_text (Or.inl rfl) (hs.trans hquote) (texts_quoted text.toList hrest)
  rwa [String.ofList_toList] at htook

theorem write_list_cons (depth : Nat) (v : Literal) (vs : List Literal) (rest : List Char) :
    write depth (.list (v :: vs)) ++ rest =
      '[' :: '\n' :: (writeItems depth (v :: vs) ++ (indent depth ++ ']' :: rest)) := by
  simp [write]

theorem write_dict_cons (depth : Nat) (e : String × Literal) (es : List (String × Literal)) (rest : List Char) :
    write depth (.dict (e :: es)) ++ rest =
      '\x7b' :: '\n' :: (writeEntries depth (e :: es) ++ (indent depth ++ '\x7d' :: rest)) := by
  simp [write]

theorem writeItems_cons (depth : Nat) (v : Literal) (vs : List Literal) (rest : List Char) :
    writeItems depth (v :: vs) ++ rest =
      indent (depth + 1) ++ (write (depth + 1) v ++ ',' :: '\n' :: (writeItems depth vs ++ rest)) := by
  simp [writeItems]

theorem writeEntries_cons (depth : Nat) (k : String) (v : Literal) (es : List (String × Literal)) (rest : List Char) :
    writeEntries depth ((k, v) :: es) ++ rest =
      indent (depth + 1) ++
        (quote k.toList ++ ':' :: ' ' :: (write (depth + 1) v ++ ',' :: '\n' :: (writeEntries depth es ++ rest))) := by
  simp [writeEntries]

theorem skipTrivia_close (s : List Char) : skipTrivia (']' :: s) = ']' :: s :=
  skipTrivia_start ⟨by decide, by decide, by decide⟩ s

theorem skipTrivia_closeDict (s : List Char) : skipTrivia ('\x7d' :: s) = '\x7d' :: s :=
  skipTrivia_start ⟨by decide, by decide, by decide⟩ s

theorem skipTrivia_quote (cs s : List Char) : skipTrivia (quote cs ++ s) = quote cs ++ s :=
  skipTrivia_start ⟨by decide, by decide, by decide⟩ _

mutual

/-- A value is read from what is written for it, and no further. -/
theorem value_write (depth : Nat) :
    ∀ (v : Literal) {s rest : List Char}, v.All IsTable → v.All IsFinite →
      skipTrivia s = write depth v ++ rest → Follows rest → Took (value s) v rest
  | .null, _, _, _, _, hs, hrest => value_name hs (head_isNameChar_of_follows hrest) (by decide) (List.all_eq_true.mp rfl) rfl
  | .bool true, _, _, _, _, hs, hrest => value_name hs (head_isNameChar_of_follows hrest) (by decide) (List.all_eq_true.mp rfl) rfl
  | .bool false, _, _, _, _, hs, hrest => value_name hs (head_isNameChar_of_follows hrest) (by decide) (List.all_eq_true.mp rfl) rfl
  | .int n, _, _, _, _, hs, hrest => value_of_isNumber hs (isNumber_writeInt n) hrest
  | .float _, _, _, _, hd, hs, hrest => value_of_isNumber hs (isNumber_writeFloat hd) hrest
  | .text _, _, _, _, _, hs, hrest => value_quote hs hrest
  | .list [], _, _, _, _, hs, _ => value_list hs (items_close (skipTrivia_close _))
  | .list (v :: vs), _, _, ht, hf, hs, _ => by
    rw [write_list_cons] at hs
    exact value_list hs (items_write depth (v :: vs) ht.2 hf.2 (skipTrivia_newline _))
  | .dict [], _, _, _, _, hs, _ => value_dict hs (entries_close (skipTrivia_closeDict _))
  | .dict (e :: es), _, _, ht, hf, hs, _ => by
    rw [write_dict_cons] at hs
    have hentries := value_dict hs (entries_write depth (e :: es) ht.2 hf.2 (skipTrivia_newline _))
    rwa [Table.ofEntries_eq_self ht.1] at hentries

theorem items_write (depth : Nat) :
    ∀ (vs : List Literal) {s rest : List Char}, AllItems IsTable vs → AllItems IsFinite vs →
      skipTrivia s = skipTrivia (writeItems depth vs ++ (indent depth ++ ']' :: rest)) → Took (items ']' s) vs rest
  | [], _, _, _, _, hs => by
    rw [writeItems, List.nil_append, skipTrivia_indent, skipTrivia_close] at hs
    exact items_close hs
  | v :: vs, _, _, ht, hf, hs => by
    obtain ⟨c, r, hwrite, hc⟩ := write_head (depth + 1) hf.1
    rw [writeItems_cons, skipTrivia_indent, skipTrivia_write (depth + 1) hf.1] at hs
    have hhead := hs
    rw [hwrite, List.cons_append] at hhead
    exact items_cons hhead (hc.ne (by decide)) (value_write (depth + 1) v ht.1 hf.1 hs (.comma _)) (skipTrivia_comma _)
      (items_write depth vs ht.2 hf.2 (skipTrivia_newline _))

theorem entries_write (depth : Nat) :
    ∀ (es : List (String × Literal)) {s rest : List Char}, AllEntries IsTable es → AllEntries IsFinite es →
      skipTrivia s = skipTrivia (writeEntries depth es ++ (indent depth ++ '\x7d' :: rest)) →
        Took (entries s) es rest
  | [], _, _, _, _, hs => by
    rw [writeEntries, List.nil_append, skipTrivia_indent, skipTrivia_closeDict] at hs
    exact entries_close hs
  | (k, v) :: es, _, _, ht, hf, hs => by
    rw [writeEntries_cons, skipTrivia_indent, skipTrivia_quote] at hs
    have hvalue : ∀ t, skipTrivia (' ' :: (write (depth + 1) v ++ t)) = write (depth + 1) v ++ t :=
      fun t => (skipTrivia_space _).trans (skipTrivia_write (depth + 1) hf.1 t)
    exact entries_cons hs (by decide) (value_quote hs (.colon _)) (skipTrivia_colon _)
      (value_write (depth + 1) v ht.1 hf.1 (hvalue _) (.comma _)) (skipTrivia_comma _)
      (entries_write depth es ht.2 hf.2 (skipTrivia_newline _))

end

/-! ## Whole texts -/

theorem parse_render {v : Literal} (ht : v.All IsTable) (hf : v.All IsFinite) : parse (render v) = .ok v := by
  have hs : skipTrivia (render v) = write 0 v ++ [] := by
    have h := skipTrivia_write 0 hf []
    rwa [List.append_nil] at h ⊢
  exact finish_took (value_write 0 v ht hf hs .nothing) rfl

/-- The target of an assignment is read off, and what is behind the sign is read as a literal. -/
theorem parseAssignment_eq (s : List Char) : parseAssignment (target ++ ' ' :: '=' :: s) = value s >>= finish := by
  have hstart : skipTrivia (target ++ ' ' :: '=' :: s) = target ++ ' ' :: '=' :: s :=
    skipTrivia_start ⟨by decide, by decide, by decide⟩ _
  have hname : spanName (target ++ ' ' :: '=' :: s) = (target, ' ' :: '=' :: s) := by
    refine spanName_append (List.all_eq_true.mp rfl) fun c hc => ?_
    cases hc
    decide
  have hequals : skipTrivia (' ' :: '=' :: s) = '=' :: s := by
    rw [skipTrivia_space]
    exact skipTrivia_start ⟨by decide, by decide, by decide⟩ s
  unfold parseAssignment
  simp only [hstart, hname, hequals]
  rw [if_pos (by decide)]
  rfl

theorem renderAssignment_eq (v : Literal) :
    renderAssignment v = target ++ ' ' :: '=' :: (' ' :: (write 0 v ++ ['\n'])) := by
  simp [renderAssignment, render]

theorem parseAssignment_renderAssignment {v : Literal} (ht : v.All IsTable) (hf : v.All IsFinite) :
    parseAssignment (renderAssignment v) = .ok v := by
  rw [renderAssignment_eq, parseAssignment_eq]
  exact finish_took (value_write 0 v ht hf ((skipTrivia_space _).trans (skipTrivia_write 0 hf _)) .lineEnd) rfl

end Handout.Literal
