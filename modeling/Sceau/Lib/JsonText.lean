import Sceau.Lib.Json

/-!
# JSON texts

The text of a tree, as a pretty printer writes it that starts a line for every element and every
field and indents by two spaces (`serde_json::to_string_pretty`). A tree some program has built has
no bad literals; they have no text of their own, and are written as `null`.
-/

set_option autoImplicit false

namespace Lib.Json

/-! ## Strings -/

def hexDigit (n : Nat) : Char := "0123456789abcdef".toList.getD n '0'

/-- A character within a string. -/
def escape (c : Char) : String :=
  if c = '"' then "\\\""
  else if c = '\\' then "\\\\"
  else if c = '\x08' then "\\b"
  else if c = '\t' then "\\t"
  else if c = '\n' then "\\n"
  else if c = '\x0c' then "\\f"
  else if c = '\r' then "\\r"
  else if c.toNat < 32 then
    "\\u00" ++ String.ofList [hexDigit (c.toNat / 16), hexDigit (c.toNat % 16)]
  else String.ofList [c]

def escapes : List Char → String
  | [] => ""
  | c :: cs => escape c ++ escapes cs

def quote (s : String) : String := "\"" ++ escapes s.toList ++ "\""

/-! ## Trees -/

/-- The start of a line. -/
def newline (depth : Nat) : String := String.ofList ('\n' :: List.replicate (2 * depth) ' ')

/-- What ends a sequence: nothing is on its lines, or its last bracket gets one. -/
def lastLine (depth : Nat) (empty : Bool) : String := if empty then "" else newline depth

mutual

def pretty (depth : Nat) : Json → String
  | .null => "null"
  | .bool b => if b then "true" else "false"
  | .num n => (n.map toString).getD "null"
  | .str s => (s.map quote).getD "null"
  | .arr xs => "[" ++ elements (depth + 1) true xs ++ lastLine depth xs.isEmpty ++ "]"
  | .obj fs => "\x7b" ++ members (depth + 1) true fs ++ lastLine depth fs.isEmpty ++ "\x7d"

def elements (depth : Nat) (first : Bool) : List Json → String
  | [] => ""
  | x :: xs => (if first then "" else ",") ++ newline depth ++ pretty depth x ++
      elements depth false xs

def member (depth : Nat) : Option String × Json → String
  | (name, v) => (name.map quote).getD "null" ++ ": " ++ pretty depth v

def members (depth : Nat) (first : Bool) : List (Option String × Json) → String
  | [] => ""
  | f :: fs => (if first then "" else ",") ++ newline depth ++ member depth f ++
      members depth false fs

end

/-! ## Sizes -/

/-- No character becomes shorter. -/
theorem utf8Size_le_escape (c : Char) : c.utf8Size ≤ (escape c).utf8ByteSize := by
  unfold escape
  -- the seven with an escape of their own
  iterate 7
    split
    · subst_vars
      decide
  split
  · rename_i hcontrol
    have hone : c.utf8Size = 1 := by
      rw [Char.utf8Size_eq_one_iff, UInt32.le_iff_toNat_le]
      exact Nat.le_trans (Nat.le_of_lt hcontrol) (by decide)
    have hfour : "\\u00".utf8ByteSize = 4 := by decide
    rw [String.utf8ByteSize_append, hone, hfour]
    omega
  · simp

theorem utf8ByteSize_le_escapes (cs : List Char) :
    (String.ofList cs).utf8ByteSize ≤ (escapes cs).utf8ByteSize := by
  induction cs with
  | nil => decide
  | cons c cs ih =>
    have hcons : (String.ofList (c :: cs)).utf8ByteSize =
        c.utf8Size + (String.ofList cs).utf8ByteSize := by
      simp [String.ofList_cons]
    have hc := utf8Size_le_escape c
    rw [hcons, escapes, String.utf8ByteSize_append]
    omega

theorem utf8ByteSize_le_quote (s : String) : s.utf8ByteSize ≤ (quote s).utf8ByteSize := by
  have hs := utf8ByteSize_le_escapes s.toList
  rw [String.ofList_toList] at hs
  rw [quote, String.utf8ByteSize_append, String.utf8ByteSize_append]
  omega

/-! A text is at least as long as the strings in it. -/

mutual

/-- The size of the strings of a tree, names of fields among them. -/
def strings : Json → Nat
  | .null => 0
  | .bool _ => 0
  | .num _ => 0
  | .str s => (s.map String.utf8ByteSize).getD 0
  | .arr xs => elementStrings xs
  | .obj fs => memberStrings fs

def elementStrings : List Json → Nat
  | [] => 0
  | x :: xs => strings x + elementStrings xs

def fieldStrings : Option String × Json → Nat
  | (name, v) => (name.map String.utf8ByteSize).getD 0 + strings v

def memberStrings : List (Option String × Json) → Nat
  | [] => 0
  | f :: fs => fieldStrings f + memberStrings fs

end

theorem getD_utf8ByteSize_le (s : Option String) :
    (s.map String.utf8ByteSize).getD 0 ≤ ((s.map quote).getD "null").utf8ByteSize := by
  cases s with
  | none => exact Nat.zero_le _
  | some s => exact utf8ByteSize_le_quote s

mutual

theorem strings_le_pretty (depth : Nat) :
    ∀ j : Json, strings j ≤ (pretty depth j).utf8ByteSize
  | .null => Nat.zero_le _
  | .bool _ => Nat.zero_le _
  | .num _ => Nat.zero_le _
  | .str s => getD_utf8ByteSize_le s
  | .arr xs => by
    have hxs := elementStrings_le (depth + 1) true xs
    simp only [strings, pretty, String.utf8ByteSize_append]
    omega
  | .obj fs => by
    have hfs := memberStrings_le (depth + 1) true fs
    simp only [strings, pretty, String.utf8ByteSize_append]
    omega

theorem elementStrings_le (depth : Nat) (first : Bool) :
    ∀ xs : List Json, elementStrings xs ≤ (elements depth first xs).utf8ByteSize
  | [] => Nat.zero_le _
  | x :: xs => by
    have hx := strings_le_pretty depth x
    have hxs := elementStrings_le depth false xs
    simp only [elementStrings, elements, String.utf8ByteSize_append]
    omega

theorem fieldStrings_le (depth : Nat) :
    ∀ f : Option String × Json, fieldStrings f ≤ (member depth f).utf8ByteSize
  | (name, v) => by
    have hname := getD_utf8ByteSize_le name
    have hv := strings_le_pretty depth v
    simp only [fieldStrings, member, String.utf8ByteSize_append]
    omega

theorem memberStrings_le (depth : Nat) (first : Bool) :
    ∀ fs : List (Option String × Json), memberStrings fs ≤ (members depth first fs).utf8ByteSize
  | [] => Nat.zero_le _
  | f :: fs => by
    have hf := fieldStrings_le depth f
    have hfs := memberStrings_le depth false fs
    simp only [memberStrings, members, String.utf8ByteSize_append]
    omega

end

end Lib.Json
