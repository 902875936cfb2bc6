/-
  Handout.Proofs.Json.Record — a record that is written is read by the fields it was
  written from.

  Each reader of a field takes what is written for a value of its kind (`asText_shape` and
  those after it), and what a reader of values answers may be written again at the same
  depth (`fits_of_asMembers`, `fits_of_asList`). The fields of a record are found by their
  names when each is written once (`record_shape`).
-/

import Handout.Proofs.Json.RoundTrip

namespace Handout.Json

variable {depth d : Nat} {v : Json}

/-! ## Values that are read back -/

/-- A value that is read back from its own text has only numbers that are. -/
theorem numbersReadBack_of_parse? {width : Nat} (h : parse? (String.ofList (v.write width 0)) = some v) :
    v.All NumberReadsBack depthLimit := by
  have hparse := parse?_write width v (Or.inl rfl)
  rw [List.append_nil] at hparse
  rw [parse?, read?, String.toList_ofList, hparse] at h
  exact readsBack_of_toJson v h

theorem Number.readsBack_int {n : Int} (h : IsInt64 n) : (Number.int n).ReadsBack := by
  intro depth
  have htoken := isToken_int n [] .nothing
  rw [List.append_nil] at htoken
  have hshape : (Number.int n).shape = .number (intToken n) := by
    rw [Number.shape, Number.write, htoken]
  rw [hshape, Raw.toJson, value?_intToken h, Option.map_some]

/-- Only `null` is read back from `null`. -/
theorem shape_ne_null (hv : v ≠ .null) (h : v.All NumberReadsBack d) : v.shape ≠ .null := by
  cases v with
  | null => exact absurd rfl hv
  | number n =>
    intro hnull
    have hread : n.shape.toJson 0 = some (.number n) := h 0
    rw [shape] at hnull
    rw [hnull] at hread
    cases hread
  | bool b => exact nofun
  | text s => exact nofun
  | array vs => exact nofun
  | object ms => exact nofun

namespace Raw

/-! ## Readers of fields -/

theorem asText_shape (s : String) : asText depth (shape (.text s)) = some s := textOf?_pieces s

theorem asWord_shape {n : Nat} (h : n < 4294967296) : asWord depth (Json.ofNat n).shape = some n := by
  have htoken := isToken_int n [] .nothing
  rw [List.append_nil] at htoken
  have hshape : (Json.ofNat n).shape = .number (intToken n) := by
    rw [Json.ofNat, shape, Number.shape, Number.write, htoken]
  have hvalue : (intToken n).value? = some (.int n) := value?_intToken ⟨by omega, by omega⟩
  rw [hshape, asWord]
  simp only [hvalue]
  rw [if_pos (by omega), Int.toNat_natCast]

theorem asWordOf_shape {α : Type} (read : String → Option α) (s : String) :
    asWordOf read depth (shape (.text s)) = read s := by
  rw [shape, asWordOf, textOf?_pieces, Option.bind_some]

theorem asJson_shape (hf : v.All Fits depth) (hn : v.All NumberReadsBack d) : asJson depth v.shape = some v :=
  toJson_shape v hf hn

theorem asMembers_shape {ms : List (String × Json)} (hf : (Json.object ms).All Fits depth)
    (hn : AllMembers NumberReadsBack d ms) : asMembers depth (shape (.object ms)) = some ms := by
  simp only [shape, asMembers, inside?_of_lt hf.1.1, Option.bind_eq_bind, Option.bind_some,
    toMembers_shapes ms hf.2 hn, Option.pure_def, Table.ofEntries_eq_self hf.1.2]

theorem asList_shape {α β : Type} {f : FieldReader β} {g : α → Json} {k : α → β} {l : List α} (hd : 1 < depth)
    (h : ∀ a ∈ l, f (depth - 1) (g a).shape = some (k a)) :
    asList f depth (shape (.array (l.map g))) = some (l.map k) := by
  have hitems : ∀ m : List α, (∀ a ∈ m, f (depth - 1) (g a).shape = some (k a)) →
      (shapes (m.map g)).mapM (f (depth - 1)) = some (m.map k) := by
    intro m
    induction m with
    | nil => exact fun _ => rfl
    | cons a m ih =>
      intro hm
      obtain ⟨ha, hm⟩ := List.forall_mem_cons.mp hm
      simp only [List.map_cons, shapes, List.mapM_cons, ha, ih hm, Option.bind_eq_bind, Option.bind_some,
        Option.pure_def]
  simp only [shape, asList, inside?_of_lt hd, Option.bind_eq_bind, Option.bind_some, hitems l h]

theorem orNull_shape {α : Type} {f : FieldReader α} {a : α} (hv : v.shape ≠ .null)
    (h : f depth v.shape = some a) : orNull f depth v.shape = some (some a) := by
  unfold orNull
  split
  · rename_i hnull
    exact absurd hnull hv
  · rw [h, Option.map_some]

theorem orNull_eq_some {α : Type} {f : FieldReader α} {r : Raw} {a : α} (h : orNull f depth r = some (some a)) :
    f depth r = some a := by
  unfold orNull at h
  split at h
  · cases h
  · obtain ⟨b, hb, heq⟩ := Option.map_eq_some_iff.mp h
    cases heq
    exact hb

theorem not_null_of_orNull {r : Raw} (h : orNull asJson depth r = some (some v)) : v ≠ .null := by
  have hread := orNull_eq_some h
  unfold orNull at h
  split at h
  · cases h
  · rename_i hne
    rintro rfl
    -- no other shape stands for `null`
    cases r with
    | null => exact hne rfl
    | bool b => cases hread
    | number t =>
      obtain ⟨n, -, hn⟩ := Option.map_eq_some_iff.mp hread
      cases hn
    | text ps =>
      obtain ⟨s, -, hs⟩ := Option.map_eq_some_iff.mp hread
      cases hs
    | array rs =>
      rw [asJson, toJson] at hread
      split at hread
      · cases hread
      · obtain ⟨vs, -, hvs⟩ := Option.map_eq_some_iff.mp hread
        cases hvs
    | object ms =>
      rw [asJson, toJson] at hread
      split at hread
      · cases hread
      · obtain ⟨es, -, hes⟩ := Option.map_eq_some_iff.mp hread
        cases hes

theorem fits_of_asMembers {r : Raw} {ms : List (String × Json)} (h : asMembers depth r = some ms) :
    (Json.object ms).All Fits depth := by
  cases r with
  | object rs =>
    simp only [asMembers, Option.bind_eq_bind, Option.bind_eq_some_iff, Option.pure_def, Option.some.injEq] at h
    obtain ⟨d, hd, es, hes, rfl⟩ := h
    refine fits_of_toJson (.object rs) ?_
    rw [toJson, hd]
    simp only [hes, Option.map_some]
  | _ => cases h

theorem toJsons_eq_mapM (rs : List Raw) : toJsons depth rs = rs.mapM (asJson depth) := by
  induction rs with
  | nil => rfl
  | cons r rs ih => rw [toJsons, List.mapM_cons, ih]; rfl

theorem asValues_shape {vs : List Json} (hf : (Json.array vs).All Fits depth) (hn : AllItems NumberReadsBack d vs) :
    asList asJson depth (shape (.array vs)) = some vs := by
  have hitems := toJsons_shapes vs hf.2 hn
  rw [toJsons_eq_mapM] at hitems
  simp only [shape, asList, inside?_of_lt hf.1, Option.bind_eq_bind, Option.bind_some, hitems]

theorem fits_of_asList {r : Raw} {vs : List Json} (h : asList asJson depth r = some vs) :
    (Json.array vs).All Fits depth := by
  cases r with
  | array rs =>
    simp only [asList, Option.bind_eq_bind, Option.bind_eq_some_iff] at h
    obtain ⟨d, hd, hvs⟩ := h
    refine fits_of_toJson (.array rs) ?_
    rw [toJson, hd]
    simp only [toJsons_eq_mapM, hvs, Option.map_some]
  | _ => cases h

/-! ## Records -/

/-- The fields that a record is written from. -/
def fieldsOf (ms : List (String × Json)) : List (String × Raw) := ms.map fun e => (e.1, e.2.shape)

theorem pick_memberShapes {names : List String} {ms : List (String × Json)} (hnames : ∀ k ∈ Table.keys ms, k ∈ names)
    (hnodup : (Table.keys ms).Nodup) : pick names (memberShapes ms) = some (fieldsOf ms) := by
  induction ms with
  | nil => rfl
  | cons e ms ih =>
    obtain ⟨k, v⟩ := e
    obtain ⟨hk, hnames⟩ := List.forall_mem_cons.mp (show ∀ x ∈ k :: Table.keys ms, x ∈ names from hnames)
    obtain ⟨hnotMem, hnodup⟩ := List.nodup_cons.mp (show (k :: Table.keys ms).Nodup from hnodup)
    have honce : ((fieldsOf ms).any fun e => e.1 == k) = false := by
      rw [List.any_eq_false]
      rintro e he heq
      obtain ⟨e', he', rfl⟩ := List.mem_map.mp he
      exact hnotMem (List.mem_map.mpr ⟨e', he', eq_of_beq heq⟩)
    simp only [memberShapes, pick, textOf?_pieces, ih hnames hnodup, Option.bind_eq_bind, Option.bind_some,
      List.contains_iff_mem.mpr hk, honce, if_true, Bool.false_eq_true, if_false]
    rfl

/-- Fields that are written once each, in the order of their names. -/
theorem record_shape {names : List String} {ms : List (String × Json)} (hd : 1 < depth)
    (hnodup : names.Nodup) (hkeys : (Table.keys ms).Sublist names) :
    record names depth (shape (.object ms)) = some ⟨depth - 1, fieldsOf ms⟩ := by
  have hpick := pick_memberShapes (fun k hk => hkeys.subset hk) (hkeys.nodup hnodup)
  simp only [shape, record, inside?_of_lt hd, Option.bind_eq_bind, Option.bind_some, hpick, Option.pure_def]

theorem lookup_fieldsOf (name : String) (ms : List (String × Json)) :
    (fieldsOf ms).lookup name = (ms.lookup name).map shape := by
  induction ms with
  | nil => rfl
  | cons e ms ih =>
    obtain ⟨k, v⟩ := e
    have hcons : fieldsOf ((k, v) :: ms) = (k, v.shape) :: fieldsOf ms := rfl
    rw [hcons, List.lookup_cons, List.lookup_cons]
    cases name == k with
    | true => rfl
    | false => exact ih

/-! ## Fields of a record -/

section

variable {α : Type} {f : FieldReader α} {name : String} {default a : α} {ms : List (String × Json)}

theorem required_of_lookup (hlookup : ms.lookup name = some v) (h : f depth v.shape = some a) :
    Found.required name f ⟨depth, fieldsOf ms⟩ = some a := by
  simp only [Found.required, lookup_fieldsOf, hlookup, Option.map_some, Option.bind_eq_bind, Option.bind_some, h]

theorem optional_of_lookup (hlookup : ms.lookup name = some v) (h : f depth v.shape = some a) :
    Found.optional name default f ⟨depth, fieldsOf ms⟩ = some a := by
  simp only [Found.optional, lookup_fieldsOf, hlookup, Option.map_some, h]

theorem optional_of_lookup_none (hlookup : ms.lookup name = none) :
    Found.optional name default f ⟨depth, fieldsOf ms⟩ = some default := by
  simp only [Found.optional, lookup_fieldsOf, hlookup, Option.map_none]

/-- A field that is written when it has a value. -/
theorem optional_of_given {g : α → Json} {o : Option α} (hlookup : ms.lookup name = o.map g)
    (h : ∀ a, o = some a → (g a).shape ≠ .null ∧ f depth (g a).shape = some a) :
    Found.optional name none (orNull f) ⟨depth, fieldsOf ms⟩ = some o := by
  cases o with
  | none => exact optional_of_lookup_none hlookup
  | some a => exact optional_of_lookup hlookup (orNull_shape (h a rfl).1 (h a rfl).2)

/-- A field that was read is the default or what its reader has answered. -/
theorem optional_cases {found : Found} (h : found.optional name default f = some a) :
    a = default ∨ ∃ r, f found.depth r = some a := by
  unfold Found.optional at h
  split at h
  · exact Or.inl (Option.some.inj h).symm
  · exact Or.inr ⟨_, h⟩

theorem depth_of_record {names : List String} {r : Raw} {found : Found} (h : record names depth r = some found) :
    1 < depth ∧ found.depth = depth - 1 := by
  unfold record at h
  split at h
  · simp only [Option.bind_eq_bind, Option.bind_eq_some_iff, Option.pure_def, Option.some.injEq] at h
    obtain ⟨d, hd, es, -, rfl⟩ := h
    exact inside?_eq_some hd
  · simp only [Option.bind_eq_bind, Option.bind_eq_some_iff] at h
    obtain ⟨d, hd, h⟩ := h
    split at h
    · cases h
      exact inside?_eq_some hd
    · cases h
  · cases h

end

end Raw
end Handout.Json
