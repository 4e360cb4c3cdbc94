import Sceau.Lib.JsonText
import Sceau.Vex.Presence
import Mathlib.Data.Finset.Card

/-!
# The files of `auto-vex-presence`

The loaders of `auto_vex_presence.rs` and the `run` of its binary, over a file system that is a
function of paths. Reading changes nothing, so the loaders are functions of the file system; `run`
is the one function with effects, and its state is what it can change: the files and the two
output streams.

`serde_json` is a parser of texts into trees, the decoders of the structures below being the derived
ones over such a tree. Its messages, its pretty-printer and the lossy rendering of a path are
parameters. Which of several errors of one text is reported is `serde_json`'s business and left to
the message.
-/

set_option autoImplicit false

namespace Sceau.Vex

open Lib

/-! ## Paths

Byte strings, as on Unix. -/

abbrev Path : Type := List UInt8

namespace Path

/-- The bytes of an ASCII path. -/
def ofString (s : String) : Path := s.toList.map fun c => UInt8.ofNat c.toNat

def slash : UInt8 := 47

def dot : UInt8 := 46

/-- `OsStr::to_str`. -/
def toStr (name : List UInt8) : Option String := String.fromUTF8? ⟨name.toArray⟩

/-- `Path::join`, for a name without a slash. -/
def join (dir : Path) (name : List UInt8) : Path :=
  if dir = [] ∨ dir.getLast? = some slash then dir ++ name else dir ++ slash :: name

/-- `Path::file_name`: the last component, if that is a proper name. -/
def fileName (path : Path) : Option (List UInt8) :=
  match ((path.splitOn slash).filter fun c => c ≠ [] ∧ c ≠ [dot]).getLast? with
  | none => none
  | some name => if name = [dot, dot] then none else some name

/-- `Path::extension`: what follows the last dot of the name, unless that dot is its first byte. -/
def extension (path : Path) : Option (List UInt8) := do
  let name ← fileName path
  if dot ∉ name then none
  else
    let after := (name.reverse.takeWhile (· ≠ dot)).reverse
    if after.length + 1 = name.length then none else some after

end Path

/-- The name of a file in a directory: any bytes, but for a slash and the three that name nothing. -/
@[ext] structure FileName where
  bytes : List UInt8
  noSlash : Path.slash ∉ bytes := by decide
  notEmpty : bytes ≠ [] := by decide
  notDot : bytes ≠ [Path.dot] := by decide
  notDotDot : bytes ≠ [Path.dot, Path.dot] := by decide

/-! ## The file system -/

inductive ErrorKind where
  | notFound
  | invalidData
  | other (code : Nat)
  deriving DecidableEq

/-- `std::io::Error`. -/
structure IoError where
  kind : ErrorKind
  message : String
  deriving DecidableEq

/-- A file that can be looked up: its content, and the error reading it meets, if any. -/
structure File where
  bytes : List UInt8
  readError : Option IoError := none
  deriving DecidableEq

/-- What is at each path, and what listing a directory yields: the names in it, any of which may be
an error of its own. -/
structure FileSystem where
  file : Path → Except IoError File
  readDir : Path → Except IoError (List (Except IoError FileName))

namespace FileSystem

/-- `std::fs::metadata(path)?.len()`. -/
def len (fs : FileSystem) (path : Path) : Except IoError Nat := do
  let f ← fs.file path
  return f.bytes.length

/-- `std::fs::read`. -/
def read (fs : FileSystem) (path : Path) : Except IoError (List UInt8) := do
  let f ← fs.file path
  match f.readError with
  | some e => throw e
  | none => return f.bytes

/-- The file system with this content at the path. -/
def put (fs : FileSystem) (path : Path) (bytes : List UInt8) : FileSystem :=
  { fs with file := fun p => if p = path then .ok { bytes := bytes } else fs.file p }

end FileSystem

/-! ## The schemas over JSON -/

/-- The types read with `serde_json::from_slice`. -/
inductive Schema where
  | grypeReport
  | sbom
  | document
  deriving DecidableEq

/-- What the tool takes from `serde_json` and from `std::path`. -/
structure Runtime where
  /-- the tree of a text, if it is one -/
  parse : List UInt8 → Option Json
  /-- the message of the error `from_slice` ends in on bytes it rejects -/
  message : Schema → List UInt8 → String
  /-- `to_string_pretty` of a tree -/
  render : Json → String
  /-- `Path::display` -/
  display : Path → String

namespace Decode

open Lib.Json

def grypeVuln : Decoder GrypeVuln := fun j => do
  let f ← j.fields ["id"]
  return { id := ← requiredField f "id" string }

def grypeArtifact : Decoder GrypeArtifact := fun j => do
  let f ← j.fields ["purl"]
  return { purl := ← optionField f "purl" string }

def grypeMatch : Decoder GrypeMatch := fun j => do
  let f ← j.fields ["vulnerability", "artifact"]
  return {
    vulnerability := ← requiredField f "vulnerability" grypeVuln
    artifact := ← requiredField f "artifact" grypeArtifact }

def grypeReport : Decoder GrypeReport := fun j => do
  let f ← j.fields ["matches"]
  return { «matches» := ← requiredField f "matches" (seq grypeMatch) }

def sbomComponent : Decoder SbomComponent := fun j => do
  let f ← j.fields ["purl"]
  return { purl := ← optionField f "purl" string }

def sbom : Decoder Sbom := fun j => do
  let f ← j.fields ["components"]
  return { components := ← optionField f "components" (seq sbomComponent) }

end Decode

/-- `OPENVEX_CONTEXT`. -/
def openvexContext : String := "https://openvex.dev/ns/v0.2.0"

/-- `OPENVEX_VERSION`. -/
def openvexVersion : Nat := 1

structure Document where
  context : String
  id : String
  author : String
  timestamp : String
  version : Nat
  statements : List Statement
  deriving DecidableEq

namespace Decode

open Lib.Json

def vuln : Decoder Vuln := fun j => do
  let f ← j.fields ["name"]
  return { name := ← requiredField f "name" string }

def product : Decoder Product := fun j => do
  let f ← j.fields ["@id"]
  return { id := ← requiredField f "@id" string }

def statement : Decoder Statement := fun j => do
  let f ← j.fields
    ["vulnerability", "products", "status", "justification", "impact_statement", "timestamp"]
  return {
    vulnerability := ← requiredField f "vulnerability" vuln
    products := ← requiredField f "products" (seq product)
    status := ← requiredField f "status" string
    justification := ← optionField f "justification" string
    impactStatement := ← optionField f "impact_statement" string
    timestamp := ← requiredField f "timestamp" string }

def document : Decoder Document := fun j => do
  let f ← j.fields ["@context", "@id", "author", "timestamp", "version", "statements"]
  return {
    context := ← requiredField f "@context" string
    id := ← requiredField f "@id" string
    author := ← requiredField f "author" string
    timestamp := ← requiredField f "timestamp" string
    version := ← requiredField f "version" (nat (2 ^ 32))
    statements := ← requiredField f "statements" (seq statement) }

end Decode

namespace Encode

def string (s : String) : Json := .str (some s)

/-- A field `skip_serializing_if = "Option::is_none"`. -/
def optionField (name : String) (s : Option String) : List (Option String × Json) :=
  s.toList.map fun s => (some name, string s)

def statement (st : Statement) : Json :=
  .obj ([(some "vulnerability", .obj [(some "name", string st.vulnerability.name)]),
      (some "products", .arr (st.products.map fun p => .obj [(some "@id", string p.id)])),
      (some "status", string st.status)] ++
    optionField "justification" st.justification ++
    optionField "impact_statement" st.impactStatement ++
    [(some "timestamp", string st.timestamp)])

def document (doc : Document) : Json :=
  .obj [(some "@context", string doc.context), (some "@id", string doc.id),
    (some "author", string doc.author), (some "timestamp", string doc.timestamp),
    (some "version", .num (some doc.version)), (some "statements", .arr (doc.statements.map statement))]

end Encode

/-! ## The loaders -/

/-- `MAX_INPUT_FILE_BYTES`. -/
def maxInputFileBytes : Nat := 256 * 1024 * 1024

section Loaders

variable (R : Runtime) (fs : FileSystem)

/-- `read_file_capped`. -/
def readFileCapped (path : Path) : Except IoError (List UInt8) := do
  let len ← fs.len path
  if len > maxInputFileBytes then
    throw {
      kind := .invalidData
      message := R.display path ++ ": file is " ++ toString len ++ " bytes, exceeding the " ++
        toString (maxInputFileBytes / (1024 * 1024)) ++ " MiB input limit" }
  fs.read path

/-- `serde_json::from_slice`. -/
def fromSlice {α : Type} (schema : Schema) (decode : Json.Decoder α) (bytes : List UInt8) :
    Except String α :=
  match (R.parse bytes).bind decode with
  | some a => .ok a
  | none => .error (R.message schema bytes)

/-- `from_slice` in the loaders, its error turned into one of I/O that names the file. -/
def parseFile {α : Type} (schema : Schema) (decode : Json.Decoder α) (path : Path)
    (bytes : List UInt8) : Except IoError α :=
  (fromSlice R schema decode bytes).mapError fun e =>
    { kind := .invalidData, message := R.display path ++ ": " ++ e }

/-- `load_sbom_from_path`. -/
def loadSbomFromPath (path : Path) : Except IoError Sbom := do
  let bytes ← readFileCapped R fs path
  let sbom ← parseFile R .sbom Decode.sbom path bytes
  if sbom.components.all List.isEmpty then
    throw {
      kind := .invalidData
      message := R.display path ++ ": SBOM parsed successfully but contains zero components; " ++
        "refusing to derive not_affected statements from an empty " ++
        "SBOM (input is likely truncated or broken)" }
  return sbom

/-- The files `load_triaged_from_vex_dir` does not skip. A name that is not UTF-8 has no first
character to skip it by. -/
def eligible (path : Path) : Bool :=
  path.extension.bind Path.toStr = some "json" ∧
    ¬ ((path.fileName.bind Path.toStr).any fun n => n.toList.head? = some '.') = true

/-- One entry of the directory. -/
def triagedStep (vexDir : Path) (triaged : Finset String) (entry : Except IoError FileName) :
    Except IoError (Finset String) := do
  let name ← entry
  let path := vexDir.join name.bytes
  if ¬ eligible path then
    return triaged
  let bytes ← readFileCapped R fs path
  let doc ← parseFile R .document Decode.document path bytes
  return doc.statements.foldl (fun t st => insert st.vulnerability.name t) triaged

/-- `load_triaged_from_vex_dir`. -/
def loadTriagedFromVexDir (vexDir : Path) : Except IoError (Finset String) :=
  match fs.readDir vexDir with
  | .error err => if err.kind = .notFound then .ok ∅ else .error err
  | .ok entries => entries.foldlM (triagedStep R fs vexDir) ∅

end Loaders

/-! ### What loads -/

section Loads

variable {R : Runtime} {fs : FileSystem} {path : Path}

theorem bind_eq_ok_iff {ε α β : Type} {x : Except ε α} {f : α → Except ε β} {b : β} :
    (x >>= f) = .ok b ↔ ∃ a, x = .ok a ∧ f a = .ok b := by
  cases x with
  | error e =>
    constructor
    · intro h
      cases h
    · rintro ⟨a, h, -⟩
      cases h
  | ok a =>
    constructor
    · intro h
      exact ⟨a, rfl, h⟩
    · rintro ⟨_, ⟨rfl⟩, h⟩
      exact h

/-- What does not succeed fails. -/
theorem exists_error_iff {ε α : Type} {x : Except ε α} :
    (∃ e, x = .error e) ↔ ∀ a, x ≠ .ok a := by
  cases x <;> simp

theorem FileSystem.read_eq_ok_iff {bytes : List UInt8} :
    fs.read path = .ok bytes ↔ fs.file path = .ok { bytes := bytes } := by
  rw [FileSystem.read, bind_eq_ok_iff]
  constructor
  · rintro ⟨⟨b, e⟩, hf, h⟩
    cases e with
    | none =>
      cases h
      exact hf
    | some e => cases h
  · intro hf
    exact ⟨_, hf, rfl⟩

/-- The cap is on the size the file system reports, and that is the size of what is read. -/
theorem readFileCapped_eq_ok_iff {bytes : List UInt8} :
    readFileCapped R fs path = .ok bytes ↔
      fs.read path = .ok bytes ∧ bytes.length ≤ maxInputFileBytes := by
  have hlen : ∀ n, fs.len path = .ok n ↔ ∃ f, fs.file path = .ok f ∧ f.bytes.length = n := by
    intro n
    rw [FileSystem.len, bind_eq_ok_iff]
    exact exists_congr fun f => and_congr_right fun _ => ⟨Except.ok.inj, congrArg Except.ok⟩
  rw [readFileCapped, bind_eq_ok_iff]
  constructor
  · rintro ⟨n, hn, h⟩
    obtain ⟨f, hf, rfl⟩ := (hlen n).mp hn
    by_cases hcap : f.bytes.length > maxInputFileBytes
    · rw [if_pos hcap] at h
      cases h
    · rw [if_neg hcap] at h
      have hread : fs.read path = .ok bytes := h
      rw [FileSystem.read_eq_ok_iff, hf] at hread
      obtain rfl := Except.ok.inj hread
      exact ⟨h, Nat.le_of_not_lt hcap⟩
  · rintro ⟨hread, hle⟩
    have hf := FileSystem.read_eq_ok_iff.mp hread
    refine ⟨bytes.length, (hlen _).mpr ⟨_, hf, rfl⟩, ?_⟩
    rw [if_neg (Nat.not_lt.mpr hle)]
    exact hread

theorem fromSlice_eq_ok_iff {α : Type} {schema : Schema} {decode : Json.Decoder α}
    {bytes : List UInt8} {a : α} :
    fromSlice R schema decode bytes = .ok a ↔ ∃ j, R.parse bytes = some j ∧ decode j = some a := by
  rw [← Option.bind_eq_some_iff, fromSlice]
  cases (R.parse bytes).bind decode with
  | none => simp
  | some b => simp

theorem parseFile_eq_ok_iff {α : Type} {schema : Schema} {decode : Json.Decoder α}
    {bytes : List UInt8} {a : α} :
    parseFile R schema decode path bytes = .ok a ↔
      ∃ j, R.parse bytes = some j ∧ decode j = some a := by
  have hfrom := @fromSlice_eq_ok_iff R α schema decode bytes a
  rw [← hfrom, parseFile]
  cases fromSlice R schema decode bytes with
  | error e => simp [Except.mapError]
  | ok b => simp [Except.mapError]

/-- The file holds a text of the type, of this value, within the cap. -/
def Holds {α : Type} (R : Runtime) (fs : FileSystem) (decode : Json.Decoder α) (path : Path)
    (a : α) : Prop :=
  ∃ bytes j, fs.read path = .ok bytes ∧ bytes.length ≤ maxInputFileBytes ∧
    R.parse bytes = some j ∧ decode j = some a

theorem read_decode_iff {α : Type} (schema : Schema) {decode : Json.Decoder α} {a : α} :
    (∃ bytes, readFileCapped R fs path = .ok bytes ∧ fromSlice R schema decode bytes = .ok a) ↔
      Holds R fs decode path a := by
  simp only [readFileCapped_eq_ok_iff, fromSlice_eq_ok_iff, Holds]
  constructor
  · rintro ⟨bytes, ⟨hread, hle⟩, j, hj, ha⟩
    exact ⟨bytes, j, hread, hle, hj, ha⟩
  · rintro ⟨bytes, j, hread, hle, hj, ha⟩
    exact ⟨bytes, ⟨hread, hle⟩, j, hj, ha⟩

theorem read_parse_iff {α : Type} (schema : Schema) {decode : Json.Decoder α} {a : α} :
    (∃ bytes, readFileCapped R fs path = .ok bytes ∧
      parseFile R schema decode path bytes = .ok a) ↔ Holds R fs decode path a := by
  rw [← read_decode_iff schema]
  simp only [parseFile_eq_ok_iff, fromSlice_eq_ok_iff]

/-- **What `load_sbom_from_path` accepts**: an SBOM with a component. -/
theorem loadSbomFromPath_eq_ok_iff {sbom : Sbom} :
    loadSbomFromPath R fs path = .ok sbom ↔
      Holds R fs Decode.sbom path sbom ∧ ∃ c cs, sbom.components = some (c :: cs) := by
  have hguard : ∀ s : Sbom, (∃ c cs, s.components = some (c :: cs)) ↔
      ¬ s.components.all List.isEmpty = true := by
    rintro ⟨_ | _ | ⟨c, cs⟩⟩ <;> simp
  rw [← read_parse_iff .sbom, hguard, loadSbomFromPath, bind_eq_ok_iff]
  constructor
  · rintro ⟨bytes, hbytes, h⟩
    obtain ⟨s, hs, h⟩ := bind_eq_ok_iff.mp h
    by_cases hempty : s.components.all List.isEmpty = true
    · rw [if_pos hempty] at h
      cases h
    · rw [if_neg hempty] at h
      obtain rfl : s = sbom := Except.ok.inj h
      exact ⟨⟨bytes, hbytes, hs⟩, hempty⟩
  · rintro ⟨⟨bytes, hbytes, hs⟩, hempty⟩
    refine ⟨bytes, hbytes, bind_eq_ok_iff.mpr ⟨sbom, hs, ?_⟩⟩
    rw [if_neg hempty]
    rfl

end Loads

/-! ## The binary -/

/-- `build_document`. -/
def buildDocument (statements : List Statement) (id author timestamp : String) : Document where
  context := openvexContext
  id := id
  author := author
  timestamp := timestamp
  version := openvexVersion
  statements := statements

structure Cli where
  grypeJson : Path
  sbom : List Path
  vexDir : Path
  productPurl : String
  id : String
  author : String := "auto-vex-presence"
  timestamp : Option String := none
  output : Option Path := none

/-- What the surroundings decide in a run: the clock (`now_rfc3339`), and whether a write fails,
with what is then left at the path. -/
structure Surroundings where
  now : Except String String
  writeFails : Path → Option (IoError × FileSystem)

structure World where
  files : FileSystem
  stdout : String := ""
  stderr : String := ""

abbrev RunM (α : Type) : Type := ExceptT String (StateM World) α

/-- The question mark on a `Result` whose error has been given its context. -/
def attempt {ε α : Type} (context : ε → String) (x : Except ε α) : RunM α :=
  ExceptT.mk (pure (x.mapError context))

/-- The bytes of a text. -/
def utf8 (text : String) : List UInt8 := text.toUTF8.data.toList

/-- `std::fs::write`. -/
def write (env : Surroundings) (path : Path) (text : String) : RunM (Except IoError Unit) := do
  match env.writeFails path with
  | some (e, left) =>
    modify fun w => { w with files := left }
    return .error e
  | none =>
    modify fun w => { w with files := w.files.put path (utf8 text) }
    return .ok ()

/-- The `timestamp` of a run: the one given, or the clock's. -/
def timestampOf (env : Surroundings) (cli : Cli) : Except String String :=
  match cli.timestamp with
  | some ts => .ok ts
  | none => env.now

/-- `match &cli.output`. -/
def deliver (R : Runtime) (env : Surroundings) (cli : Cli) (rendered : String) : RunM Unit := do
  match cli.output with
  | some path =>
    let written ← write env path rendered
    attempt (fun e => "failed to write --output " ++ R.display path ++ ": " ++ e.message) written
  | none => modify fun w => { w with stdout := w.stdout ++ rendered }

/-- `run`, its arguments parsed. -/
def run (R : Runtime) (env : Surroundings) (cli : Cli) : RunM Unit := do
  let files := (← get).files
  let grypeBytes ← attempt
    (fun e => "failed to read --grype-json " ++ R.display cli.grypeJson ++ ": " ++ e.message)
    (readFileCapped R files cli.grypeJson)
  let grype ← attempt
    (fun e => "failed to parse --grype-json " ++ R.display cli.grypeJson ++ ": " ++ e)
    (fromSlice R .grypeReport Decode.grypeReport grypeBytes)
  let sboms ← cli.sbom.mapM fun path => attempt
    (fun e : IoError => "failed to load --sbom " ++ R.display path ++ ": " ++ e.message)
    (loadSbomFromPath R files path)
  let triaged ← attempt
    (fun e => "failed to load --vex-dir " ++ R.display cli.vexDir ++ ": " ++ e.message)
    (loadTriagedFromVexDir R files cli.vexDir)
  let timestamp ← attempt id (timestampOf env cli)
  let statements := computePresenceVex sboms triaged cli.productPurl timestamp grype
  let doc := buildDocument statements cli.id cli.author timestamp
  deliver R env cli (R.render (Encode.document doc) ++ "\n")
  let summary := "auto-vex-presence: " ++ toString (grype.matches).length ++
    " grype match(es) -> " ++ toString doc.statements.length ++ " statement(s) emitted (" ++
    toString triaged.card ++ " already triaged in " ++ R.display cli.vexDir ++ ")\n"
  modify fun w => { w with stderr := w.stderr ++ summary }

/-! ## Small instances -/

/-- The pretty-printer, and a parser that knows the texts it is given, for evaluating the model. -/
def Runtime.ofTexts (texts : List (String × Json)) : Runtime where
  parse bytes := (texts.find? fun x => utf8 x.1 == bytes).map (·.2)
  message _ _ := "expected value"
  render := Json.pretty 0
  display path := (Path.toStr path).getD ""

theorem length_utf8 (text : String) : (utf8 text).length = text.utf8ByteSize := rfl

/-- Texts that differ in size are told apart. -/
theorem Runtime.ofTexts_parse {texts : List (String × Json)}
    (hsizes : (texts.map fun x => x.1.utf8ByteSize).Nodup) {text : String} {tree : Json}
    (hmem : (text, tree) ∈ texts) : (Runtime.ofTexts texts).parse (utf8 text) = some tree := by
  show (texts.find? fun x => utf8 x.1 == utf8 text).map (·.2) = some tree
  induction texts with
  | nil => cases hmem
  | cons x texts ih =>
    rw [List.map_cons, List.nodup_cons] at hsizes
    rcases List.mem_cons.mp hmem with rfl | hmem
    · simp
    · have hne : (utf8 x.1 == utf8 text) = false := by
        refine beq_false_of_ne fun heq => hsizes.1 ?_
        rw [← length_utf8, heq]
        exact List.mem_map_of_mem (f := fun x : String × Json => x.1.utf8ByteSize) hmem
      simp only [List.find?_cons, hne]
      exact ih hsizes.2 hmem

/-- A file system of these files, and of these directories with these names. -/
def FileSystem.ofFiles (files : List (Path × List UInt8)) (dirs : List (Path × List FileName)) :
    FileSystem where
  file path :=
    match files.lookup path with
    | some bytes => .ok { bytes := bytes }
    | none => .error { kind := .notFound, message := "No such file or directory" }
  readDir path :=
    match dirs.lookup path with
    | some names => .ok (names.map .ok)
    | none => .error { kind := .notFound, message := "No such file or directory" }

end Sceau.Vex
