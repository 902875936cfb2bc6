/-
  Handout.Proofs.Cell.Grammar — the markers of tests and solutions as languages.

  A marker is put together from words, white space and choices. A word is spelled by any
  characters that have the simple case folding of its letters (`spellings`). `Marker` reads a
  line from the left instead: white space as far as it goes, and `hidden` or a colon whenever it
  is there. No line is lost by that, as what follows white space begins with a letter or a hash
  (`mem_blanks_mul`), and as two alternatives never begin alike (`mem_optional_mul`,
  `mem_choice_mul`).

  Proved:
  - `isTest_iff`, `isSolution_iff`, `isBoldSolution_iff`: a line is marked exactly when it begins
    with the marker.
  - `isHidden_of_begins`: a line that begins with the marker of a hidden test says that it is hidden.
-/

import Mathlib.Computability.Language
import Mathlib.Data.List.TakeWhile
import Handout.Proofs.Cell.Marker

namespace Handout.Marker

/-! ## The grammar -/

/-- The characters that have the simple case folding of a letter: its two cases, for an s the long s
    as well, and for a k the Kelvin sign. What is no letter has only itself. -/
def spellings (w : Char) : List Char :=
  [w, w.toUpper] ++ (if w = 's' then [Char.ofNat 0x17f] else []) ++ if w = 'k' then [Char.ofNat 0x212a] else []

/-- The texts that spell a word letter by letter. -/
def spelled (word : List Char) : Language Char := {s | List.Forall₂ (fun w c => c ∈ spellings w) word s}

theorem mem_spelled {word s : List Char} : s ∈ spelled word ↔ List.Forall₂ (fun w c => c ∈ spellings w) word s := Iff.rfl

/-- White space, also none. -/
def blanks : Language Char := {s | ∀ c ∈ s, Text.isBlank c = true}

/-- `hidden` and the white space after it. -/
def hiddenPart : Language Char := spelled "hidden".toList * blanks

def testMark : Language Char :=
  spelled hashes * blanks * (1 + hiddenPart) * spelled "test".toList * blanks * spelled hashes

def hiddenTestMark : Language Char :=
  spelled hashes * blanks * hiddenPart * spelled "test".toList * blanks * spelled hashes

def solutionMark : Language Char := spelled hashes * blanks * spelled "solution".toList * blanks * spelled hashes

def boldSolutionMark : Language Char :=
  (spelled "<strong>".toList + spelled ['*', '*']) * spelled "solution".toList * (1 + spelled [':']) *
    (spelled "</strong>".toList + spelled ['*', '*'])

/-- A line that begins with a marker, whatever comes after it. -/
def Begins (mark : Language Char) (line : String) : Prop := line.toList ∈ mark * ⊤

/-! ## Letters -/

theorem toNat_toLower (c : Char) :
    c.toLower.toNat = if 0x41 ≤ c.toNat ∧ c.toNat ≤ 0x5a then c.toNat + 0x20 else c.toNat := by
  have hA : 'A'.val = 65 := rfl
  have hZ : 'Z'.val = 90 := rfl
  have ha : 'a'.val = 97 := rfl
  have h65 : (65 : UInt32).toNat = 65 := rfl
  have h90 : (90 : UInt32).toNat = 90 := rfl
  have h97 : (97 : UInt32).toNat = 97 := rfl
  delta Char.toLower
  simp only [Char.toNat, ge_iff_le, UInt32.le_iff_toNat_le, hA, hZ, ha, h65, h90]
  split
  · simp only [UInt32.toNat_add, UInt32.toNat_sub, h65, h97]
    omega
  · rfl

theorem toNat_toUpper (c : Char) :
    c.toUpper.toNat = if 0x61 ≤ c.toNat ∧ c.toNat ≤ 0x7a then c.toNat - 0x20 else c.toNat := by
  have hA : 'A'.val = 65 := rfl
  have ha : 'a'.val = 97 := rfl
  have hz : 'z'.val = 122 := rfl
  have h65 : (65 : UInt32).toNat = 65 := rfl
  have h97 : (97 : UInt32).toNat = 97 := rfl
  have h122 : (122 : UInt32).toNat = 122 := rfl
  delta Char.toUpper
  simp only [Char.toNat, UInt32.le_iff_toNat_le, hA, hz, ha, h97, h122]
  split
  · simp only [UInt32.toNat_add, UInt32.toNat_sub, h65, h97]
    omega
  · rfl

/-- A character of a marker: no capital, and in ASCII. -/
def IsPlain (w : Char) : Prop := ¬ (0x41 ≤ w.toNat ∧ w.toNat ≤ 0x5a) ∧ w.toNat < 0x80

instance (w : Char) : Decidable (IsPlain w) := inferInstanceAs (Decidable (_ ∧ _))

variable {w c : Char}

theorem toLower_eq_iff (hw : IsPlain w) : c.toLower = w ↔ c = w ∨ c = w.toUpper := by
  obtain ⟨hcapital, hascii⟩ := hw
  rw [← Char.toNat_inj, ← Char.toNat_inj, ← Char.toNat_inj, toNat_toLower, toNat_toUpper]
  constructor
  · intro h
    split at h
    · right
      rw [if_pos (by omega)]
      omega
    · left
      exact h
  · intro h
    rcases h with h | h
    · rw [if_neg (by omega), h]
    · split at h
      · rw [if_pos (by omega)]
        omega
      · rw [if_neg (by omega), h]

theorem mem_spellings : c ∈ spellings w ↔
    c = w ∨ c = w.toUpper ∨ (w = 's' ∧ c.toNat = 0x17f) ∨ (w = 'k' ∧ c.toNat = 0x212a) := by
  have hlong : c.toNat = 0x17f ↔ c = Char.ofNat 0x17f := by rw [← Char.toNat_inj]; rfl
  have hkelvin : c.toNat = 0x212a ↔ c = Char.ofNat 0x212a := by rw [← Char.toNat_inj]; rfl
  rw [hlong, hkelvin]
  unfold spellings
  split <;> split <;> simp_all

/-- Folded letters are compared exactly as simple case folding compares them. -/
theorem fold_eq_iff (hw : IsPlain w) : fold c = w ↔ c ∈ spellings w := by
  have hascii : ∀ n, 0x80 ≤ n → c.toNat = n → ¬ (c = w ∨ c = w.toUpper) := by
    intro n hn hc he
    have hsmall := hw.2
    have hupper := toNat_toUpper w
    rcases he with rfl | rfl
    · omega
    · split at hupper <;> omega
  rw [mem_spellings, ← or_assoc, ← toLower_eq_iff hw]
  unfold fold
  split
  · rename_i h
    have hlower := mt (toLower_eq_iff hw).mp (hascii _ (by decide) h)
    simp only [hlower, h, and_true, false_or, eq_comm (a := 's')]
    simp
  · rename_i hlong
    split
    · rename_i h
      have hlower := mt (toLower_eq_iff hw).mp (hascii _ (by decide) h)
      simp only [hlower, h, and_true, false_or, eq_comm (a := 'k')]
      simp
    · rename_i hkelvin
      simp only [hlong, hkelvin, and_false, or_false]

/-! ## Words and white space -/

variable {word s r : List Char} {l : Language Char}

/-- All characters of a word are plain. -/
def Plain (word : List Char) : Prop := ∀ w ∈ word, IsPlain w

instance (word : List Char) : Decidable (Plain word) := List.decidableBAll IsPlain word

/-- Characters of markers that are white space in none of their spellings. -/
def Solid (ws : List Char) : Prop := ∀ w ∈ ws, IsPlain w ∧ (spellings w).all (fun c => !Text.isBlank c) = true

instance (ws : List Char) : Decidable (Solid ws) := List.decidableBAll _ ws

/-- A word is read where it is spelled. -/
theorem mem_spelled_mul (hword : Plain word) : s ∈ spelled word * l ↔ ∃ r, afterWord? word s = some r ∧ r ∈ l := by
  rw [Language.mem_mul]
  induction word generalizing s with
  | nil =>
    constructor
    · rintro ⟨a, ha, b, hb, rfl⟩
      obtain rfl := List.forall₂_nil_left_iff.mp ha
      exact ⟨b, rfl, hb⟩
    · rintro ⟨r, hr, hl⟩
      obtain rfl := Option.some.inj hr
      exact ⟨[], .nil, s, hl, rfl⟩
  | cons w word ih =>
    obtain ⟨hw, hword⟩ := List.forall_mem_cons.mp hword
    constructor
    · rintro ⟨a, ha, b, hb, rfl⟩
      obtain ⟨c, a, hc, ha, rfl⟩ := List.forall₂_cons_left_iff.mp ha
      rw [List.cons_append, afterWord?, if_pos ((fold_eq_iff hw).mpr hc)]
      exact (ih hword).mp ⟨a, ‹_›, b, hb, rfl⟩
    · rintro ⟨r, hr, hl⟩
      cases s with
      | nil => cases hr
      | cons c s =>
        rw [afterWord?] at hr
        split at hr
        · rename_i hc
          obtain ⟨a, ha, b, hb, rfl⟩ := (ih hword).mpr ⟨r, hr, hl⟩
          exact ⟨c :: a, List.Forall₂.cons ((fold_eq_iff hw).mp hc) ha, b, hb, rfl⟩
        · cases hr

/-- A text that begins with another letter is none of a word. -/
theorem afterWord?_eq_none (hw : word.head? = some w) (h : fold c ≠ w) (s : List Char) : afterWord? word (c :: s) = none := by
  obtain ⟨word, rfl⟩ := List.head?_eq_some_iff.mp hw
  rw [afterWord?, if_neg h]

/-- Every text of a language begins with a character that folds to one of these. -/
def HeadIn (ws : List Char) (l : Language Char) : Prop := ∀ s ∈ l, ∃ c r, s = c :: r ∧ fold c ∈ ws

theorem headIn_spelled_mul (hw : word.head? = some w) (hplain : IsPlain w) (l : Language Char) :
    HeadIn [w] (spelled word * l) := by
  obtain ⟨word, rfl⟩ := List.head?_eq_some_iff.mp hw
  rintro _ ⟨a, ha, b, -, rfl⟩
  obtain ⟨c, a, hc, -, rfl⟩ := List.forall₂_cons_left_iff.mp ha
  exact ⟨c, a ++ b, rfl, List.mem_singleton.mpr ((fold_eq_iff hplain).mpr hc)⟩

theorem HeadIn.add {ws ws' : List Char} {m : Language Char} (hl : HeadIn ws l) (hm : HeadIn ws' m) :
    HeadIn (ws ++ ws') (l + m) := by
  intro s hs
  rcases hs with hs | hs
  · obtain ⟨c, r, rfl, hc⟩ := hl s hs
    exact ⟨c, r, rfl, List.mem_append_left _ hc⟩
  · obtain ⟨c, r, rfl, hc⟩ := hm s hs
    exact ⟨c, r, rfl, List.mem_append_right _ hc⟩

/-- White space is read as far as it goes, when what follows it begins with none. -/
theorem mem_blanks_mul {ws : List Char} (hl : HeadIn ws l) (hws : Solid ws) :
    s ∈ blanks * l ↔ Text.trimStart s ∈ l := by
  rw [Language.mem_mul]
  constructor
  · rintro ⟨a, ha, b, hb, rfl⟩
    obtain ⟨c, r, rfl, hc⟩ := hl b hb
    obtain ⟨hplain, hsolid⟩ := hws _ hc
    have hblank : Text.isBlank c = false := by
      simpa using List.all_eq_true.mp hsolid c ((fold_eq_iff hplain).mp rfl)
    have htrim : Text.trimStart (a ++ c :: r) = c :: r := by
      rw [Text.trimStart, List.dropWhile_append_of_pos ha, List.dropWhile_cons_of_neg (by simp [hblank])]
    rwa [htrim]
  · intro h
    exact ⟨s.takeWhile Text.isBlank, fun c hc => List.mem_takeWhile_imp hc, _, h, List.takeWhile_append_dropWhile⟩

/-- A word and the white space after it. -/
theorem mem_part_mul {ws : List Char} (hword : Plain word) (hl : HeadIn ws l) (hws : Solid ws) :
    s ∈ spelled word * (blanks * l) ↔ ∃ r, afterPart? word s = some r ∧ r ∈ l := by
  rw [mem_spelled_mul hword]
  simp only [afterPart?, Option.map_eq_some_iff]
  constructor
  · rintro ⟨r, hr, hl'⟩
    exact ⟨_, ⟨r, hr, rfl⟩, (mem_blanks_mul hl hws).mp hl'⟩
  · rintro ⟨_, ⟨r, hr, rfl⟩, hl'⟩
    exact ⟨r, hr, (mem_blanks_mul hl hws).mpr hl'⟩

/-! ## Choices -/

variable {m : Language Char} {read? read'? : List Char → Option (List Char)}

/-- What may be there is read whenever it is, when nothing that can follow is read so. -/
theorem mem_optional_mul (hread : ∀ s, s ∈ m * l ↔ ∃ r, read? s = some r ∧ r ∈ l) (hnone : ∀ s ∈ l, read? s = none) :
    s ∈ (1 + m) * l ↔ (read? s).getD s ∈ l := by
  rw [add_mul, one_mul, Language.mem_add, hread]
  constructor
  · intro h
    rcases h with h | ⟨r, hr, hl⟩
    · rwa [hnone s h]
    · rwa [hr]
  · intro h
    cases hs : read? s with
    | none =>
      rw [hs] at h
      exact Or.inl h
    | some r =>
      rw [hs] at h
      exact Or.inr ⟨r, rfl, h⟩

/-- Of two languages the first that fits is read, when no text fits both. -/
theorem mem_choice_mul {m' : Language Char} (hread : ∀ s, s ∈ m * l ↔ ∃ r, read? s = some r ∧ r ∈ l)
    (hread' : ∀ s, s ∈ m' * l ↔ ∃ r, read'? s = some r ∧ r ∈ l)
    (hapart : ∀ s, read? s = none ∨ read'? s = none) :
    s ∈ (m + m') * l ↔ ∃ r, (read? s).or (read'? s) = some r ∧ r ∈ l := by
  rw [add_mul, Language.mem_add, hread, hread']
  rcases hapart s with h | h <;> rw [h] <;> simp

/-- A text in bold begins with a tag or with stars. -/
theorem mem_bold_mul {tag : List Char} (htag : tag.head? = some '<') (hplain : Plain tag) :
    s ∈ (spelled tag + spelled ['*', '*']) * l ↔ ∃ r, afterBold? tag s = some r ∧ r ∈ l := by
  apply mem_choice_mul (fun s => mem_spelled_mul hplain) (fun s => mem_spelled_mul (by decide))
  intro s
  cases s with
  | nil =>
    right
    rfl
  | cons c s =>
    by_cases h : fold c = '<'
    · right
      apply afterWord?_eq_none rfl
      rw [h]
      decide
    · left
      exact afterWord?_eq_none htag h s

/-! ## Lines -/

/-- Of steps that may fail all succeed. -/
theorem isSome_bind {α β : Type} {x : Option α} {f : α → Option β} :
    (x >>= f).isSome = true ↔ ∃ a, x = some a ∧ (f a).isSome = true := by
  cases x <;> simp

theorem mem_top (s : List Char) : s ∈ (⊤ : Language Char) := Set.mem_univ s

/-- The end of a marker: its last word and the hashes after it. -/
def closing (word : List Char) : Language Char := spelled word * (blanks * (spelled hashes * ⊤))

theorem mem_closing (hword : Plain word) :
    s ∈ closing word ↔ ∃ r, afterPart? word s = some r ∧ (afterWord? hashes r).isSome = true := by
  have hhead : HeadIn ['#'] (spelled hashes * ⊤) := headIn_spelled_mul rfl (by decide) ⊤
  rw [closing, mem_part_mul hword hhead (by decide)]
  simp only [mem_spelled_mul (show Plain hashes by decide), mem_top, and_true, Option.isSome_iff_exists]

theorem headIn_test : HeadIn ['t'] (closing "test".toList) := headIn_spelled_mul (by decide) (by decide) _

/-- `hidden` is read whenever it is there: no `test` begins with an h. -/
theorem mem_tested : s ∈ (1 + hiddenPart) * closing "test".toList ↔
    (afterPart? "hidden".toList s).getD s ∈ closing "test".toList := by
  apply mem_optional_mul
  · intro s
    rw [hiddenPart, mul_assoc]
    exact mem_part_mul (by decide) headIn_test (by decide)
  · intro s hs
    obtain ⟨c, r, rfl, hc⟩ := headIn_test s hs
    have hne : fold c ≠ 'h' := by
      rw [List.mem_singleton.mp hc]
      decide
    rw [afterPart?, afterWord?_eq_none (by decide) hne]
    rfl

theorem headIn_tested : HeadIn ['t', 'h'] ((1 + hiddenPart) * closing "test".toList) := by
  rw [add_mul, one_mul, hiddenPart, mul_assoc]
  exact headIn_test.add (headIn_spelled_mul (by decide) (by decide) _)

theorem isTest_iff {line : String} : isTest line = true ↔ Begins testMark line := by
  have hmark : testMark * ⊤ = spelled hashes * (blanks * ((1 + hiddenPart) * closing "test".toList)) := by
    simp only [testMark, closing, mul_assoc]
  rw [Begins, hmark, mem_part_mul (by decide) headIn_tested (by decide)]
  simp only [mem_tested, mem_closing (show Plain "test".toList by decide)]
  simp only [isTest, isSome_bind]

theorem isSolution_iff {line : String} : isSolution line = true ↔ Begins solutionMark line := by
  have hhead : HeadIn ['s'] (closing "solution".toList) := headIn_spelled_mul (by decide) (by decide) _
  have hmark : solutionMark * ⊤ = spelled hashes * (blanks * closing "solution".toList) := by
    simp only [solutionMark, closing, mul_assoc]
  rw [Begins, hmark, mem_part_mul (by decide) hhead (by decide)]
  simp only [mem_closing (show Plain "solution".toList by decide)]
  simp only [isSolution, isSome_bind]

/-- A colon is read whenever it is there: what ends the bold text does not begin with one. -/
theorem mem_colon : s ∈ (1 + spelled [':']) * ((spelled "</strong>".toList + spelled ['*', '*']) * ⊤) ↔
    (afterWord? [':'] s).getD s ∈ (spelled "</strong>".toList + spelled ['*', '*']) * (⊤ : Language Char) := by
  apply mem_optional_mul (fun s => mem_spelled_mul (by decide))
  have htag : HeadIn ['<'] (spelled "</strong>".toList * ⊤) := headIn_spelled_mul (by decide) (by decide) ⊤
  have hstars : HeadIn ['*'] (spelled ['*', '*'] * ⊤) := headIn_spelled_mul rfl (by decide) ⊤
  intro s hs
  rw [add_mul] at hs
  obtain ⟨c, r, rfl, hc⟩ := (htag.add hstars) s hs
  have hne : fold c ≠ ':' := by
    intro he
    rw [he] at hc
    revert hc
    decide
  exact afterWord?_eq_none rfl hne r

theorem isBoldSolution_iff {line : String} : isBoldSolution line = true ↔ Begins boldSolutionMark line := by
  have hopen : ∀ {s l}, s ∈ (spelled "<strong>".toList + spelled ['*', '*']) * l ↔
      ∃ r, afterBold? "<strong>".toList s = some r ∧ r ∈ l := mem_bold_mul (by decide) (by decide)
  have hclose : ∀ {s l}, s ∈ (spelled "</strong>".toList + spelled ['*', '*']) * l ↔
      ∃ r, afterBold? "</strong>".toList s = some r ∧ r ∈ l := mem_bold_mul (by decide) (by decide)
  simp only [Begins, boldSolutionMark, mul_assoc]
  simp only [hopen, mem_spelled_mul (show Plain "solution".toList by decide), mem_colon, hclose, mem_top, and_true,
    ← Option.isSome_iff_exists]
  simp only [isBoldSolution, isSome_bind]

/-! ## Hidden tests -/

theorem occurs_append (part front rest : List Char) : occurs part (front ++ (part ++ rest)) = true := by
  induction front with
  | nil =>
    rw [List.nil_append]
    cases htext : part ++ rest with
    | nil =>
      obtain ⟨rfl, -⟩ := List.append_eq_nil_iff.mp htext
      rfl
    | cons c s =>
      have hprefix : part.isPrefixOf (c :: s) = true := List.isPrefixOf_iff_prefix.mpr ⟨rest, htext⟩
      rw [occurs, hprefix, Bool.true_or]
  | cons c front ih => rw [List.cons_append, occurs, ih, Bool.or_true]

/-- What spells a word without a letter of three spellings is that word in capitals and small letters. -/
theorem map_toLower_of_spelled (hplain : Plain word) (hs : 's' ∉ word) (hk : 'k' ∉ word) (h : s ∈ spelled word) :
    s.map Char.toLower = word := by
  induction h with
  | nil => rfl
  | @cons w c word s hc _ ih =>
    obtain ⟨hw, hword⟩ := List.forall_mem_cons.mp hplain
    obtain ⟨hs, hsrest⟩ := List.ne_and_not_mem_of_not_mem_cons hs
    obtain ⟨hk, hkrest⟩ := List.ne_and_not_mem_of_not_mem_cons hk
    have hlower : c.toLower = w := by
      rw [toLower_eq_iff hw]
      simpa [hs.symm, hk.symm] using mem_spellings.mp hc
    rw [List.map_cons, hlower, ih hword hsrest hkrest]

/-- A test that is marked as hidden says so. -/
theorem isHidden_of_begins {line : String} (h : Begins hiddenTestMark line) : isHidden line = true := by
  simp only [Begins, hiddenTestMark, hiddenPart, mul_assoc, Language.mem_mul] at h
  obtain ⟨a, -, _, ⟨b, -, _, ⟨x, hx, rest, -, rfl⟩, rfl⟩, hline⟩ := h
  have hlower := map_toLower_of_spelled (by decide) (by decide) (by decide) hx
  rw [isHidden, ← hline, List.map_append, List.map_append, List.map_append, hlower, ← List.append_assoc]
  exact occurs_append _ _ _

end Handout.Marker
