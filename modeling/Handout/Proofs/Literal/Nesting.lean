/-
  Handout.Proofs.Literal.Nesting — how deep values are read inside one another, and for how long.

  The readers of values once more, now with limits: `depth` on the values that are read inside one
  another, and `rounds` on the items or entries that are looked for in one place, the mark that
  closes them included. Each call among them lowers one of the two, so they end by their
  form; beyond a limit they give nothing. A value is looked for wherever there is no closing mark, at
  the end of a text as well, so there may be one more inside another than there are characters.

  Proved:
  - `valueWithin_eq`: with limits above the length of the text a value is read as without, since each value
    inside another begins behind its mark, and each round behind a comma.
  - `reading_ends`: the readers advance at every position, and every text is answered within such limits.
    Opening brackets need them (`brackets_meet_the_limit`).
-/

import Handout.Proofs.Literal.Advance

namespace Handout.Literal

/-! ## Answers -/

/-- What a reader with limits gives: nothing beyond them, and else an answer or a refusal. -/
abbrev Limited := ExceptT Failure Option

namespace Limited

variable {α β : Type} {s t : List Char}

/-- Beyond a limit. -/
def beyond : Limited α := ExceptT.mk none

def settled (x : Except Failure α) : Limited α := ExceptT.mk (some x)

/-- What was read, and what is left. -/
def answer (x : Except Failure (Parsed s α)) : Limited (α × List Char) := settled (x.map fun p => (p.value, p.rest))

@[simp] theorem answer_ok (p : Parsed s α) : answer (.ok p) = pure (p.value, p.rest) := rfl

@[simp] theorem answer_error (e : Failure) : answer (.error e : Except Failure (Parsed s α)) = throw e := rfl

end Limited

open Limited

/-! ## Readers with limits -/

section

variable (nested : List Char → Limited (Literal × List Char))

def itemsWithin (close : Char) : Nat → List Char → Limited (List Literal × List Char)
  | 0, _ => beyond
  | rounds + 1, s =>
    if (skipTrivia s).head? = some close then pure ([], (skipTrivia s).tail)
    else do
      let (v, u) ← nested s
      match skipTrivia u with
      | [] => throw ⟨[], .unterminated "sequence"⟩
      | d :: r =>
        if d = ',' then do
          let (vs, rest) ← itemsWithin close rounds r
          pure (v :: vs, rest)
        else if d = close then pure ([v], r)
        else throw ⟨r, .separator close d⟩

def entriesWithin : Nat → List Char → Limited (List (String × Literal) × List Char)
  | 0, _ => beyond
  | rounds + 1, s =>
    if (skipTrivia s).head? = some '\x7d' then pure ([], (skipTrivia s).tail)
    else do
      let (k, u) ← nested s
      match k with
      | .text key =>
        match skipTrivia u with
        | [] => throw ⟨[], .expected ':' none⟩
        | d :: x =>
          if d = ':' then do
            let (v, u') ← nested x
            match skipTrivia u' with
            | [] => throw ⟨[], .unterminated "dict"⟩
            | e :: r =>
              if e = ',' then do
                let (es, rest) ← entriesWithin rounds r
                pure ((key, v) :: es, rest)
              else if e = '\x7d' then pure ([(key, v)], r)
              else throw ⟨r, .separator '\x7d' e⟩
          else throw ⟨x, .expected ':' (some d)⟩
      | other => throw ⟨u, .keyNotText other⟩

def groupWithin (rounds : Nat) (s : List Char) : Limited (Literal × List Char) :=
  if (skipTrivia s).head? = some ')' then pure (.list [], (skipTrivia s).tail)
  else do
    let (v, u) ← nested s
    match skipTrivia u with
    | [] => throw ⟨[], .unterminated "group"⟩
    | d :: r =>
      if d = ')' then pure (v, r)
      else if d = ',' then do
        let (vs, rest) ← itemsWithin nested ')' rounds r
        pure (.list (v :: vs), rest)
      else throw ⟨r, .separator ')' d⟩

end

/-- A value with no values inside, from its first character. -/
def scalar (c : Char) (r : List Char) : Limited (Literal × List Char) :=
  if c = '\'' ∨ c = '"' then do
    let (cs, rest) ← answer (texts c r)
    pure (.text (String.ofList cs), rest)
  else if BeginsNumber c then answer (number c r)
  else if Text.isAlphabetic c ∨ c = '_' then
    match ofName? (c :: (spanName r).1) with
    | some v => pure (v, (spanName r).2)
    | none => throw ⟨(spanName r).2, .unsupportedName (c :: (spanName r).1)⟩
  else throw ⟨c :: r, .unexpected c⟩

/-- One value, with the trivia before it and at most `depth` values read inside one another, itself included. -/
def valueWithin (rounds : Nat) : (depth : Nat) → List Char → Limited (Literal × List Char)
  | 0, _ => beyond
  | depth + 1, s =>
    match skipTrivia s with
    | [] => throw ⟨[], .unexpectedEnd⟩
    | c :: r =>
      if c = '\x7b' then do
        let (es, rest) ← entriesWithin (valueWithin rounds depth) rounds r
        pure (.dict (Table.ofEntries es), rest)
      else if c = '[' then do
        let (vs, rest) ← itemsWithin (valueWithin rounds depth) ']' rounds r
        pure (.list vs, rest)
      else if c = '(' then groupWithin (valueWithin rounds depth) rounds r
      else scalar c r

/-- Nothing but trivia may follow. -/
def finishWithin (p : Literal × List Char) : Limited Literal :=
  match skipTrivia p.2 with
  | [] => pure p.1
  | c :: r => throw ⟨c :: r, .trailing c⟩

def parseWithin (rounds depth : Nat) (s : List Char) : Limited Literal := do
  finishWithin (← valueWithin rounds depth s)

def parseAssignmentWithin (rounds depth : Nat) (s : List Char) : Limited Literal :=
  let (name, r) := spanName (skipTrivia s)
  if name = "test".toList then
    match skipTrivia r with
    | [] => throw ⟨[], .expected '=' none⟩
    | c :: r' =>
      if c = '=' then do finishWithin (← valueWithin rounds depth r') else throw ⟨r', .expected '=' (some c)⟩
  else throw ⟨r, .target name⟩

/-! ## Limits above the length of the text -/

section

variable {nested : List Char → Limited (Literal × List Char)} {n : Nat}

/-- What is nested is read as without limits wherever fewer than `n` characters are left. -/
def ReadsBelow (nested : List Char → Limited (Literal × List Char)) (n : Nat) : Prop :=
  ∀ s : List Char, s.length < n → nested s = answer (value s)

theorem value_of_skipTrivia_nil {s : List Char} (hs : skipTrivia s = []) : value s = .error ⟨[], .unexpectedEnd⟩ := by
  rw [value]
  split
  · rfl
  · rename_i ht
    rw [hs] at ht
    cases ht

theorem itemsWithin_eq (hn : ReadsBelow nested n) (close : Char) {rounds : Nat} {s : List Char} (hs : s.length < n)
    (hrounds : s.length < rounds) : itemsWithin nested close rounds s = answer (items close s) := by
  induction rounds generalizing s with
  | zero => omega
  | succ rounds ih =>
    generalize hx : items close s = x
    rw [items] at hx
    split at hx
    · rename_i hskip
      subst hx
      simp [itemsWithin, hskip, hn s hs, value_of_skipTrivia_nil hskip]
    rename_i c r hskip
    split at hx
    · rename_i hc
      subst hc hx
      simp [itemsWithin, hskip]
    rename_i hc
    cases hv : value s with
    | error e =>
      simp only [hv, bind, Except.bind] at hx
      subst hx
      simp [itemsWithin, hskip, hc, hn s hs, hv]
    | ok p =>
      simp only [hv, bind, Except.bind] at hx
      split at hx
      · rename_i hu
        subst hx
        simp [itemsWithin, hskip, hc, hn s hs, hv, hu]
      rename_i d u hu
      have hlt : u.length < s.length := Nat.lt_trans (length_of_skipTrivia hu) p.shorter
      split at hx
      · rename_i hd
        have hmore := ih (s := u) (by omega) (by omega)
        subst hd hx
        cases hi : items close u <;> simp [itemsWithin, hskip, hc, hn s hs, hv, hu, hmore, hi]
      rename_i hd
      split at hx
      · rename_i hclose
        subst hclose hx
        simp [itemsWithin, hskip, hc, hn s hs, hv, hu, hd]
      · rename_i hclose
        subst hx
        simp [itemsWithin, hskip, hc, hn s hs, hv, hu, hd, hclose]

theorem groupWithin_eq (hn : ReadsBelow nested n) {rounds : Nat} {s : List Char} (hs : s.length < n)
    (hrounds : s.length < rounds) : groupWithin nested rounds s = answer (group s) := by
  generalize hx : group s = x
  rw [group] at hx
  split at hx
  · rename_i hskip
    subst hx
    simp [groupWithin, hskip, hn s hs, value_of_skipTrivia_nil hskip]
  rename_i c r hskip
  split at hx
  · rename_i hc
    subst hc hx
    simp [groupWithin, hskip]
  rename_i hc
  cases hv : value s with
  | error e =>
    simp only [hv, bind, Except.bind] at hx
    subst hx
    simp [groupWithin, hskip, hc, hn s hs, hv]
  | ok p =>
    simp only [hv, bind, Except.bind] at hx
    split at hx
    · rename_i hu
      subst hx
      simp [groupWithin, hskip, hc, hn s hs, hv, hu]
    rename_i d u hu
    have hlt : u.length < s.length := Nat.lt_trans (length_of_skipTrivia hu) p.shorter
    split at hx
    · rename_i hd
      subst hd hx
      simp [groupWithin, hskip, hc, hn s hs, hv, hu]
    rename_i hd
    split at hx
    · rename_i hcomma
      have hmore : itemsWithin nested ')' rounds u = answer (items ')' u) := itemsWithin_eq hn ')' (by omega) (by omega)
      subst hcomma hx
      cases hi : items ')' u <;> simp [groupWithin, hskip, hc, hn s hs, hv, hu, hmore, hi]
    · rename_i hcomma
      subst hx
      simp [groupWithin, hskip, hc, hn s hs, hv, hu, hd, hcomma]

theorem entriesWithin_eq (hn : ReadsBelow nested n) {rounds : Nat} {s : List Char} (hs : s.length < n)
    (hrounds : s.length < rounds) : entriesWithin nested rounds s = answer (entries s) := by
  induction rounds generalizing s with
  | zero => omega
  | succ rounds ih =>
    generalize hx : entries s = x
    rw [entries] at hx
    split at hx
    · rename_i hskip
      subst hx
      simp [entriesWithin, hskip, hn s hs, value_of_skipTrivia_nil hskip]
    rename_i c r hskip
    split at hx
    · rename_i hc
      subst hc hx
      simp [entriesWithin, hskip]
    rename_i hc
    cases hk : value s with
    | error e =>
      simp only [hk, bind, Except.bind] at hx
      subst hx
      simp [entriesWithin, hskip, hc, hn s hs, hk]
    | ok p =>
      simp only [hk, bind, Except.bind] at hx
      split at hx
      · rename_i key hkey
        split at hx
        · rename_i hu
          subst hx
          simp [entriesWithin, hskip, hc, hn s hs, hk, hkey, hu]
        rename_i d y hu
        have hlt : y.length < s.length := Nat.lt_trans (length_of_skipTrivia hu) p.shorter
        split at hx
        · rename_i hd
          subst hd
          cases hv : value y with
          | error e =>
            simp only [hv] at hx
            subst hx
            simp [entriesWithin, hskip, hc, hn s hs, hk, hkey, hu, hn y (by omega), hv]
          | ok q =>
            simp only [hv] at hx
            split at hx
            · rename_i hw
              subst hx
              simp [entriesWithin, hskip, hc, hn s hs, hk, hkey, hu, hn y (by omega), hv, hw]
            rename_i e u hw
            have hlt' : u.length < s.length :=
              Nat.lt_trans (Nat.lt_trans (length_of_skipTrivia hw) q.shorter) hlt
            split at hx
            · rename_i he
              have hmore := ih (s := u) (by omega) (by omega)
              subst he hx
              cases hi : entries u <;>
                simp [entriesWithin, hskip, hc, hn s hs, hk, hkey, hu, hn y (by omega), hv, hw, hmore, hi]
            rename_i he
            split at hx
            · rename_i hclose
              subst hclose hx
              simp [entriesWithin, hskip, hc, hn s hs, hk, hkey, hu, hn y (by omega), hv, hw]
            · rename_i hclose
              subst hx
              simp [entriesWithin, hskip, hc, hn s hs, hk, hkey, hu, hn y (by omega), hv, hw, he, hclose]
        · rename_i hd
          subst hx
          simp [entriesWithin, hskip, hc, hn s hs, hk, hkey, hu, hd]
      · rename_i other hkey
        subst hx
        simp [entriesWithin, hskip, hc, hn s hs, hk]

theorem scalar_eq {c : Char} {s r : List Char} (hs : skipTrivia s = c :: r) (hdict : c ≠ '\x7b') (hlist : c ≠ '[')
    (hgroup : c ≠ '(') : scalar c r = answer (value s) := by
  rw [value]
  split <;> rename_i ht <;> rw [hs] at ht <;> cases ht
  rw [if_neg hdict, if_neg hlist, if_neg hgroup, scalar]
  split
  · cases texts c r <;> rfl
  by_cases hnumber : c = '-' ∨ c = '+' ∨ c = '.' ∨ c.isDigit = true
  · rw [if_pos hnumber, if_pos (show BeginsNumber c from hnumber)]
    cases number c r <;> rfl
  rw [if_neg hnumber, if_neg (show ¬ BeginsNumber c from hnumber)]
  split
  · unfold ofName?
    by_cases htrue : c :: (spanName r).1 = "True".toList
    · simp only [if_pos htrue, answer_ok]
    by_cases hfalse : c :: (spanName r).1 = "False".toList
    · simp only [if_neg htrue, if_pos hfalse, answer_ok]
    by_cases hnone : c :: (spanName r).1 = "None".toList
    · simp only [if_neg htrue, if_neg hfalse, if_pos hnone, answer_ok]
    · simp only [if_neg htrue, if_neg hfalse, if_neg hnone, answer_error]
  · rfl

end

/-- With limits above the length of the text a value is read as without. -/
theorem valueWithin_eq {rounds depth : Nat} {s : List Char} (hdepth : s.length < depth) (hrounds : s.length < rounds) :
    valueWithin rounds depth s = answer (value s) := by
  induction depth generalizing s with
  | zero => omega
  | succ depth ih =>
    rw [valueWithin]
    split
    · rename_i hskip
      rw [value_of_skipTrivia_nil hskip, answer_error]
    · rename_i c r hskip
      have hlt := length_of_skipTrivia hskip
      have hbelow : ReadsBelow (valueWithin rounds depth) (r.length + 1) := fun u hu => ih (by omega) (by omega)
      split
      · rename_i hc
        subst hc
        rw [entriesWithin_eq hbelow (Nat.lt_succ_self _) (by omega), value]
        split <;> rename_i ht <;> rw [hskip] at ht <;> cases ht
        rw [if_pos rfl]
        cases entries r <;> rfl
      split
      · rename_i hc
        subst hc
        rw [itemsWithin_eq hbelow _ (Nat.lt_succ_self _) (by omega), value]
        split <;> rename_i ht <;> rw [hskip] at ht <;> cases ht
        rw [if_neg (by decide), if_pos rfl]
        cases items ']' r <;> rfl
      split
      · rename_i hc
        subst hc
        rw [groupWithin_eq hbelow (Nat.lt_succ_self _) (by omega), value]
        split <;> rename_i ht <;> rw [hskip] at ht <;> cases ht
        rw [if_neg (by decide), if_neg (by decide), if_pos rfl]
        cases group r <;> rfl
      · rename_i hdict hlist hgroup
        exact scalar_eq hskip hdict hlist hgroup

/-! ## Whole texts -/

theorem answer_bind_finish {s : List Char} (x : Except Failure (Parsed s Literal)) :
    (answer x >>= finishWithin) = settled (x >>= finish) := by
  cases x with
  | error e => rfl
  | ok p =>
    show finishWithin (p.value, p.rest) = settled (finish p)
    unfold finishWithin finish
    cases skipTrivia p.rest <;> rfl

theorem parseWithin_eq {rounds depth : Nat} {t : List Char} (hdepth : t.length < depth) (hrounds : t.length < rounds) :
    parseWithin rounds depth t = settled (parse t) := by
  rw [parseWithin, valueWithin_eq hdepth hrounds]
  exact answer_bind_finish _

theorem parseAssignmentWithin_eq {rounds depth : Nat} {t : List Char} (hdepth : t.length < depth)
    (hrounds : t.length < rounds) : parseAssignmentWithin rounds depth t = settled (parseAssignment t) := by
  unfold parseAssignmentWithin parseAssignment
  simp only
  split
  · cases hskip : skipTrivia (spanName (skipTrivia t)).2 with
    | nil => rfl
    | cons c r =>
      have hname : (spanName (skipTrivia t)).2.length ≤ t.length :=
        Nat.le_trans (List.dropWhile_suffix _).length_le (length_skipTrivia t)
      have hlt := length_of_skipTrivia hskip
      simp only
      split
      · rw [valueWithin_eq (by omega) (by omega)]
        exact answer_bind_finish _
      · rfl
  · rfl

theorem skipTrivia_brackets (n : Nat) : skipTrivia (List.replicate n '[') = List.replicate n '[' := by
  cases n with
  | zero => rfl
  | succ n => exact skipTrivia_start (beginsValue_of_mem '[' (by decide)).toIsStart _

/-- Opening brackets are values inside one another, and behind the last of them one more is looked for. -/
theorem brackets_meet_the_limit (rounds n : Nat) : valueWithin (rounds + 1) n (List.replicate n '[') = beyond := by
  induction n with
  | zero => rfl
  | succ n ih =>
    have hopen : ¬ (List.replicate n '[').head? = some ']' := by
      cases n with
      | zero => exact nofun
      | succ n => exact fun h => absurd (Option.some.inj h) (by decide)
    have hitems : itemsWithin (valueWithin (rounds + 1) n) ']' (rounds + 1) (List.replicate n '[') = beyond := by
      rw [itemsWithin, skipTrivia_brackets, if_neg hopen, ih]
      rfl
    rw [valueWithin, skipTrivia_brackets, List.replicate_succ]
    simp only [hitems]
    rfl

/-- Every reader advances at every position of a text. Whatever the text holds, reading it ends: with limits
    above the number of its characters, on the rounds in one place and on the values inside one another,
    it is answered as without. -/
theorem reading_ends (t : List Char) :
    (∀ i ≤ t.length, AdvancesAt t i) ∧
      ∀ rounds depth, t.length < rounds → t.length < depth →
        parseWithin rounds depth t = settled (parse t) ∧
          parseAssignmentWithin rounds depth t = settled (parseAssignment t) := by
  refine ⟨fun i hi => advancesAt hi, fun rounds depth hrounds hdepth => ?_⟩
  exact ⟨parseWithin_eq hdepth hrounds, parseAssignmentWithin_eq hdepth hrounds⟩

/-- A list in a list, with a comma behind it. -/
def listInList : List Char := ['[', '[', '7', ']', ',', ']']

theorem listInList_is_read : 1 ≤ listInList.length ∧ listInList.length < 7 ∧
    Took (value (listInList.drop 1)) (.list [.int 7]) [',', ']'] ∧ EndsBehind listInList 1 [',', ']'] ∧
    parseWithin 7 7 listInList = settled (.ok (.list [.list [.int 7]])) := by
  have hseven : Spells ['7'] (.int 7) := .number (.unsigned (Or.inl (by decide)) (.digit (by decide) .nil) rfl)
  have hinner : Spells ['[', '7', ']'] (.list [.int 7]) := .list (.one .nil hseven .nil)
  have houter : Spells listInList (.list [.list [.int 7]]) := .list (.cons .nil hinner .nil (.none .nil))
  have htook : Took (value (listInList.drop 1)) (.list [.int 7]) [',', ']'] :=
    value_of_spells (w := []) hinner .nil (.of_separator .nil (by decide) _)
  have hparse : parse listInList = .ok (.list [.list [.int 7]]) :=
    finish_took (value_of_spells (w := []) houter .nil (.of_ending (.trivia .nil))) rfl
  obtain ⟨hadvances, hends⟩ := reading_ends listInList
  refine ⟨by decide, by decide, htook, (hadvances 1 (by decide)).value _ _ htook, ?_⟩
  rw [(hends 7 7 (by decide) (by decide)).1, hparse]

end Handout.Literal
