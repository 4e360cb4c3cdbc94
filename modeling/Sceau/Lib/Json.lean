import Mathlib.Data.List.Forall2

/-!
# JSON, as a derived deserializer reads it

The tree of a JSON text, and decoders into typed values with the rules a derived `Deserialize`
has over such a tree: an unknown field is skipped unread, a known field may occur once, a missing
or `null` optional field is `none`, and a struct may also be written as the array of its fields in
order.

Literals are kept as they are read on demand. A string is `none` when its escapes or its encoding
are bad, and a number is `none` when it is not a non-negative integer; both are errors for a decoder
that asks for the value and for no other, since what is skipped is not decoded. Names of fields are
always asked for.
-/

set_option autoImplicit false

namespace Lib

/-- The tree of a JSON text. An object keeps its fields in order, repeated ones included. -/
inductive Json where
  | null
  | bool (b : Bool)
  | num (n : Option Nat)
  | str (s : Option String)
  | arr (xs : List Json)
  | obj (fields : List (Option String × Json))

namespace Json

variable {α : Type}

/-- The object has this field. -/
def Has (j : Json) (name : String) (v : Json) : Prop :=
  ∃ fields, j = .obj fields ∧ (some name, v) ∈ fields

/-! ## Decoders -/

abbrev Decoder (α : Type) : Type := Json → Option α

def string : Decoder String
  | .str s => s
  | _ => none

/-- An unsigned integer below the bound. -/
def nat (bound : Nat) : Decoder Nat
  | .num (some n) => if n < bound then some n else none
  | _ => none

def option (d : Decoder α) : Decoder (Option α)
  | .null => some none
  | j => (d j).map some

def seq (d : Decoder α) : Decoder (List α)
  | .arr xs => xs.mapM d
  | _ => none

/-- The values of the fields of this name. -/
def values (fields : List (Option String × Json)) (name : String) : List Json :=
  fields.filterMap fun f => if f.1 = some name then some f.2 else none

/-- The fields of a struct that are there, by name: from an object in which no known field is
repeated, or from an array with one element per field. -/
def fields (names : List String) : Json → Option (String → Option Json)
  | .obj fs =>
    if (∀ f ∈ fs, f.1 ≠ none) ∧ ∀ n ∈ names, (values fs n).length ≤ 1
    then some fun n => (values fs n).head? else none
  | .arr xs => if xs.length = names.length then some fun n => xs[names.idxOf n]? else none
  | _ => none

/-- A field that has to be there. -/
def requiredField (fs : String → Option Json) (name : String) (d : Decoder α) : Option α :=
  (fs name).bind d

/-- A field of type `Option`. -/
def optionField (fs : String → Option Json) (name : String) (d : Decoder α) : Option (Option α) :=
  match fs name with
  | none => some none
  | some j => option d j

/-! ## What they accept -/

theorem mem_values {fs : List (Option String × Json)} {name : String} {v : Json} :
    v ∈ values fs name ↔ (some name, v) ∈ fs := by
  simp only [values, List.mem_filterMap, Option.ite_none_right_eq_some, Option.some.injEq]
  constructor
  · rintro ⟨⟨k, v'⟩, hmem, rfl, rfl⟩
    exact hmem
  · intro hmem
    exact ⟨_, hmem, rfl, rfl⟩

/-- In an object a struct is read from, a known field has the one value it is given. -/
theorem fields_obj {names : List String} {fs : List (Option String × Json)}
    {get : String → Option Json} (h : fields names (.obj fs) = some get) {name : String}
    (hname : name ∈ names) {v : Json} : get name = some v ↔ (Json.obj fs).Has name v := by
  rw [fields] at h
  split at h
  · rename_i hok
    obtain rfl := Option.some.inj h
    have hone := hok.2 name hname
    have hhas : (Json.obj fs).Has name v ↔ v ∈ values fs name := by
      rw [mem_values]
      constructor
      · rintro ⟨_, ⟨rfl⟩, hmem⟩
        exact hmem
      · intro hmem
        exact ⟨_, rfl, hmem⟩
    rw [hhas]
    match hv : values fs name, hone with
    | [], _ => simp [hv]
    | [w], _ => simp [hv, eq_comm]
    | _ :: _ :: _, hone => simp at hone
  · cases h

theorem mapM_eq_some_iff {d : Decoder α} {xs : List Json} {ys : List α} :
    xs.mapM d = some ys ↔ List.Forall₂ (fun x y => d x = some y) xs ys := by
  induction xs generalizing ys with
  | nil => simp [eq_comm]
  | cons x xs ih =>
    simp only [List.mapM_cons, Option.bind_eq_bind, Option.bind_eq_some_iff, Option.pure_def,
      Option.some.injEq, List.forall₂_cons_left_iff, ih]
    constructor
    · rintro ⟨y, hy, ys', hys, rfl⟩
      exact ⟨y, ys', hy, hys, rfl⟩
    · rintro ⟨y, ys', hy, hys, rfl⟩
      exact ⟨y, hy, ys', hys, rfl⟩

theorem seq_eq_some_iff {d : Decoder α} {j : Json} {ys : List α} :
    seq d j = some ys ↔ ∃ xs, j = .arr xs ∧ List.Forall₂ (fun x y => d x = some y) xs ys := by
  cases j with
  | arr xs =>
    rw [seq, mapM_eq_some_iff]
    constructor
    · intro h
      exact ⟨xs, rfl, h⟩
    · rintro ⟨_, ⟨rfl⟩, h⟩
      exact h
  | _ => simp [seq]

theorem forall₂_exists_right {β γ : Type} {r : β → γ → Prop} {xs : List β} {ys : List γ}
    (h : List.Forall₂ r xs ys) {x : β} (hx : x ∈ xs) : ∃ y ∈ ys, r x y := by
  induction h with
  | nil => cases hx
  | cons hr _ ih =>
    rcases List.mem_cons.mp hx with rfl | hx
    · exact ⟨_, List.mem_cons_self, hr⟩
    · obtain ⟨y, hy, hxy⟩ := ih hx
      exact ⟨y, List.mem_cons_of_mem _ hy, hxy⟩

theorem forall₂_exists_left {β γ : Type} {r : β → γ → Prop} {xs : List β} {ys : List γ}
    (h : List.Forall₂ r xs ys) {y : γ} (hy : y ∈ ys) : ∃ x ∈ xs, r x y :=
  forall₂_exists_right h.flip hy

/-- An optional field that comes out as a value was there with that value. -/
theorem optionField_eq_some_some_iff {get : String → Option Json} {name : String} {d : Decoder α}
    {a : α} (hnull : d .null = none) :
    optionField get name d = some (some a) ↔ ∃ j, get name = some j ∧ d j = some a := by
  unfold optionField
  cases hget : get name with
  | none => simp
  | some j => cases j <;> simp [option, hnull]

end Json

end Lib
