/-
Module: SeekZstdSep.Core.Spec
Purpose: Where records end, as it is named: `from_spec` of find.rs, the flags that the plugin's
  `commands/mod.rs` reads it from, and the format that a path names, of the plugin's `source.rs`.
Trusted boundary: none
Main exports: utf8, parseUsize, fromSpec, ShellError, FinderSpec.boundary, FinderSpec.separator,
  finder, Format, innerExtension
-/
import SeekZstdSep.Core.Deliver
import SeekZstdSep.Core.Handles
import SeekZstdSep.Proofs.Msgpack

namespace SeekZstdSep

open Lib

/-- `str::as_bytes`. -/
def utf8 (text : String) : Bytes := text.toByteArray.data.toList

/-- `usize::from_str`: decimal digits, behind a plus sign or none. -/
def parseUsize (text : String) : Option Nat :=
  let digits :=
    match text.toList with
    | '+' :: digits => digits
    | digits => digits
  if digits ≠ [] ∧ digits.all Char.isDigit then
    let value := digits.foldl (fun value digit => 10 * value + (digit.toNat - '0'.toNat)) 0
    if value ≤ usizeMax then some value else none
  else none

/-- A format that takes no parameter. -/
def takesNone (format : String) (param : Option String) (find : Finder UInt8) :
    Except Error NamedBoundary :=
  if param.isSome then .error (.external s!"--finder {format} takes no --finder-arg")
  else .ok (.finder find)

/-- `from_spec`: the separator or the finder that a name and its parameter stand for. -/
def fromSpec (name : String) (param : Option String) : Except Error NamedBoundary :=
  match name with
  | "sep" => .ok (.separator (utf8 (param.getD "\n")))
  | "fixed" =>
      match param with
      | none => .error (.external "--finder fixed needs --finder-arg <length>, in bytes")
      | some param =>
          match parseUsize param with
          | none => .error (.external s!"--finder-arg {param} is not a record length")
          | some len =>
              if len = 0 then
                .error (.external
                  "--finder fixed needs a length above 0: a record of no bytes never ends")
              else .ok (.finder (fixedFinder len))
  | "flatbuffers" => takesNone "flatbuffers" param le32PrefixFinder
  | "msgpack" => takesNone "msgpack" param msgpackFinder
  | other =>
      .error (.external s!"unknown --finder {other}: sep, fixed, flatbuffers or msgpack")

/-! ### The plugin -/

/-- Why an operation failed, as its error says it: a text or what the library failed with. -/
inductive Why where
  | text (why : String)
  | library (e : Error)
deriving Repr, DecidableEq

/-- `GenericError`, without the spans. -/
structure ShellError where
  error : String
  msg : Why
  help : Option String := none
deriving Repr, DecidableEq

namespace FinderSpec

/-- The finder the names configure. -/
def boundary (spec : FinderSpec) : Except ShellError NamedBoundary :=
  match fromSpec spec.finder spec.arg with
  | .error e =>
      .error { error := s!"--finder {spec.finder} cannot be used", msg := .library e }
  | .ok boundary => .ok boundary

/-- The bytes a record ends with, which only `sep` has. Empty for any other finder, so that a
write appends nothing and a read strips nothing. -/
def separator (spec : FinderSpec) : Bytes :=
  match spec.finder, spec.arg with
  | "sep", some separator => utf8 separator
  | _, _ => []

end FinderSpec

/-- The three flags that every command of the plugin takes. -/
structure FinderFlags where
  finder : Option String := none
  finderArg : Option String := none
  separator : Option String := none

/-- Where records end, from the flags. `sep` defaults to a newline. -/
def finder (flags : FinderFlags) : Except ShellError FinderSpec :=
  let name := flags.finder.getD "sep"
  if flags.separator.isSome ∧ name ≠ "sep" then
    .error {
      error := s!"--separator cannot be given with --finder {name}"
      msg := .text "--separator is --finder sep --finder-arg" }
  else if flags.separator.isSome ∧ flags.finderArg.isSome then
    .error {
      error := "--separator and --finder-arg cannot be given together"
      msg := .text "--separator is --finder sep --finder-arg" }
  else
    let arg := flags.finderArg <|> flags.separator
    if name = "sep" then
      if arg = some "" then
        .error {
          error := "the separator must not be empty"
          msg := .text "no record would end anywhere" }
      else .ok { finder := name, arg := some (arg.getD "\n") }
    else .ok { finder := name, arg := arg }

/-- What the payload of a file is parsed by. -/
inductive Format where
  /-- one string per record, the separator removed -/
  | raw
  /-- one JSON value per record, parsed in the plugin -/
  | json
  /-- piped through the `from <name>` command of the caller's scope, in a command; a cell path
  reads it as `raw` -/
  | «from» (name : String)
deriving Repr, DecidableEq

/-- The format a name stands for, whether it is a `--format` argument or an extension. -/
def Format.named (name : String) : Format :=
  if name ∈ ["json", "jsonl", "ndjson"] then .json else .from name

/-- What a handle carries. -/
def Format.name : Format → Option String
  | .raw => none
  | .json => some "json"
  | .from name => some name

/-! ### The format a path names -/

/-- The components of a path that say something. -/
def components (path : List Char) : List (List Char) :=
  (path.splitOn '/').filter fun component => component ≠ [] ∧ component ≠ ['.']

/-- `Path::file_stem` and `Path::extension` of the last component: what is before its last dot and
behind it, where there is something before it. -/
def splitExtension (path : List (List Char)) : Option (List Char × List Char) :=
  match path.getLast? with
  | none => none
  | some name =>
      let behind := (name.reverse.takeWhile (· ≠ '.')).reverse
      let stem := (name.take (name.length - behind.length)).dropLast
      if name = ['.', '.'] ∨ stem = [] then none else some (stem, behind)

/-- `set_extension("")` where the extension is the one given. -/
def withoutExtension (extension : List Char) (path : List (List Char)) : List (List Char) :=
  match splitExtension path with
  | none => path
  | some (stem, behind) =>
      if behind = extension then
        (path.dropLast ++ [stem]).filter fun component => component ≠ ['.']
      else path

/-- The format a path names, so `events.jsonl.seek.zst` names `jsonl`. -/
def innerExtension (path : String) : Option String :=
  let stem := withoutExtension "seek".toList
    (withoutExtension "zst".toList (components path.toList))
  (splitExtension stem).map fun split => String.ofList split.2

/-- The format named by the inner extension. A path that names none is raw. -/
def Format.ofPath (path : String) : Format :=
  match innerExtension path with
  | some name => .named name
  | none => .raw

end SeekZstdSep
