import Mathlib.Data.Int.Bitwise
import WrpcSw.Tools.Stdio

/-!
# The generators of memory images (`tools/genraminit.c`, `tools/genrammif.c`, `tools/genramvhd.c`)

Three programs print the binary of the firmware for the tools that put it into the memory of the
FPGA: as writes of a simulation, as a memory initialization file, and as a VHDL package.

`genraminit` and `genrammif` read words while the end of the file was not noticed, and then go on
with zeros up to the size of the memory.  `genramvhd` counts the words of the file before it reads
them.
-/

namespace WrpcSw
namespace Tools

open PpPrintf (ascii)

/-- What the programs see of the host: the contents of its files, and the text of `errno`. -/
structure Host where
  fopen : List UInt8 → Option (List UInt8)
  strerror : List UInt8

/-- The exit status and what was printed. -/
structure Outcome where
  status : Int
  stdout : List UInt8 := []
  stderr : List UInt8 := []

def byteArg (b : UInt8) : Arg := .num b.toNat

/-! ## `genraminit` and `genrammif` -/

/-- The loop that prints words until `feof`.  A read that gets nothing leaves `x` as it was, and
its line is printed nevertheless. -/
def readLoop (line : Int → List UInt8 → List UInt8) (x : List UInt8) (i : Int) (f : File) :
    List UInt8 × Int :=
  if feof f then ([], i)
  else
    let r := fread x 4 f
    let rest := readLoop line r.1 (CInt.i32 (i + 1)) r.2.2
    (line i r.1 ++ rest.1, rest.2)
termination_by if f.eof then 0 else f.rest.length + 1
decreasing_by
  rename_i hfeof
  rw [feof, Bool.not_eq_true] at hfeof
  simp only [fread, hfeof, Bool.false_or, Bool.false_eq_true, if_false, decide_eq_true_eq,
    List.length_drop]
  split_ifs <;> omega

/-- The loop that prints zeros up to the word `n`. -/
def padLoop (line : Int → List UInt8 → List UInt8) (n i : Int) : List UInt8 :=
  if i < n then line i [0, 0, 0, 0] ++ padLoop line n (i + 1) else []
termination_by (n - i).toNat

def initLine (i : Int) (x : List UInt8) : List UInt8 :=
  printf "write %x %02X%02X%02X%02X\n" [.num i, byteArg (x.getD 0 0), byteArg (x.getD 1 0),
    byteArg (x.getD 2 0), byteArg (x.getD 3 0)]

/-- `main` of `genraminit.c`.  `x` is what the buffer holds at the start. -/
def genraminit (host : Host) (x : Vector UInt8 4) (argv : List (List UInt8)) : Outcome :=
  match argv with
  | _ :: file :: size :: _ =>
      match host.fopen file with
      | none => { status := -1 }
      | some image =>
          let r := readLoop initLine x.toList 0 { rest := image }
          { status := 0, stdout := r.1 ++ padLoop initLine (atoi size) r.2 }
  | _ => { status := -1 }

def mifLine (i : Int) (x : List UInt8) : List UInt8 :=
  printf "%x : %02X%02X%02X%02X;\n" [.num i, byteArg (x.getD 0 0), byteArg (x.getD 1 0),
    byteArg (x.getD 2 0), byteArg (x.getD 3 0)]

def mifHeader (n : Int) : List UInt8 :=
  printf "DEPTH = %d;\n" [.num n] ++ printf "WIDTH = 32;\n" [] ++
    printf "ADDRESS_RADIX = HEX;\n" [] ++ printf "DATA_RADIX = HEX;\n" [] ++
    printf "CONTENT\n" [] ++ printf "BEGIN\n" []

/-- `main` of `genrammif.c`. -/
def genrammif (host : Host) (x : Vector UInt8 4) (argv : List (List UInt8)) : Outcome :=
  match argv with
  | _ :: file :: size :: _ =>
      match host.fopen file with
      | none => { status := 1 }
      | some image =>
          let n := (atoi size).tdiv 4
          let r := readLoop mifLine x.toList 0 { rest := image }
          { status := 0
            stdout := mifHeader n ++ (r.1 ++ (padLoop mifLine n r.2 ++ printf "END;\n" [])) }
  | _ => { status := 1 }

/-! ## `genramvhd` -/

/-- What `getopt` returns for an option; `bad` stands for `:` and `?`, which the library has
reported. -/
inductive Opt
  | w (optarg : List UInt8)
  | p (optarg : List UInt8)
  | s (optarg : List UInt8)
  | b
  | l
  | v
  | h
  | bad

/-- The command line: `argv[0]`, `argv[1]`, the options in the order of `getopt`, and what is left
behind them. -/
structure CommandLine where
  program : List UInt8
  first : List UInt8
  opts : List Opt
  operands : List (List UInt8)

structure Settings where
  package : Option (List UInt8) := none
  width : Int := 4
  bigendian : Bool := true
  size : Int := -1
  stderr : List UInt8 := []

def help (program : List UInt8) : List UInt8 :=
  printf "Usage: %s [OPTION] <filename>\n" [.str program] ++ printf "\n" [] ++
    printf "  -w <width>     width of values in bytes [1/2/4/8/16]        (4)\n" [] ++
    printf "  -p <package>   name of the output package            (filename)\n" [] ++
    printf "  -s <size>      pad the output up to size bytes       (filesize)\n" [] ++
    printf "  -b             big-endian operation                         (*)\n" [] ++
    printf "  -l             little-endian operation                         \n" [] ++
    printf "  -v             verbose operation\n" [] ++
    printf "  -h             display this help and exit\n" [] ++ printf "\n" [] ++
    printf "Report Etherbone bugs to <white-rabbit-dev@ohwr.org>\n" []

/-- An option other than `-h`.  A number that is not valid is reported and used: `error` is never
tested. -/
def applyOpt (program : List UInt8) (s : Settings) : Opt → Settings
  | .w optarg =>
      let (width, valueEnd) := strtol optarg 0
      let s := { s with width := width }
      if valueEnd ≠ [] ∨ Int.land (width - 1) width ≠ 0 ∨ width = 0 ∨ width > 16 then
        { s with stderr := s.stderr ++
            printf "%s: invalid value width -- '%s'\n" [.str program, .str optarg] }
      else s
  | .p optarg => { s with package := some optarg }
  | .s optarg =>
      let (size, valueEnd) := strtol optarg 0
      let s := { s with size := size }
      if valueEnd ≠ [] then
        { s with stderr := s.stderr ++
            printf "%s: invalid value size -- '%s'\n" [.str program, .str optarg] }
      else s
  | .b => { s with bigendian := true }
  | .l => { s with bigendian := false }
  | .v | .h | .bad => s

/-- The loop over the options, and whether it ended with `-h`. -/
def getOptions (program : List UInt8) (s : Settings) : List Opt → Settings × Bool
  | [] => (s, false)
  | .h :: _ => (s, true)
  | o :: opts => getOptions program (applyOpt program s o) opts

/-- Why nothing is printed: a message, or a division by zero. -/
inductive Fault
  | message (text : List UInt8)
  | division

/-- The words of the file and of the memory. -/
def countWords (program filename : List UInt8) (s : Settings) (length : Int) :
    Except Fault (Int × Int) :=
  let size := if s.size = -1 then length else s.size
  if size < length then
    .error (.message (printf
      "%s: length of initialization file '%s' (%ld) exceeds specified size (%ld)\n"
      [.str program, .str filename, .num length, .num size]))
  else if s.width = 0 then .error .division
  else if length.tmod s.width ≠ 0 then
    .error (.message (printf "%s: initialization file '%s' is not a multiple of %ld bytes\n"
      [.str program, .str filename, .num s.width]))
  else if size.tmod s.width ≠ 0 then
    .error (.message (printf "%s: specified size '%ld' is not a multiple of %ld bytes\n"
      [.str program, .num size, .num s.width]))
  else .ok (length.tdiv s.width, size.tdiv s.width)

/-- `my_isalpha` -/
def myIsalpha (c : UInt8) : Bool := (97 ≤ c ∧ c ≤ 122) ∨ (65 ≤ c ∧ c ≤ 90)

/-- `my_isok` -/
def myIsok (c : UInt8) : Bool := c = 95 ∨ myIsalpha c ∨ (48 ≤ c ∧ c ≤ 57)

/-- The name of the package: the one of `-p`, or the file name from its first letter on. -/
def packageName (program filename : List UInt8) : Option (List UInt8) → Except Fault (List UInt8)
  | none =>
      if filename.length ≥ 100 - 5 then
        .error (.message (printf
          "%s: filename too long to deduce package name -- '%s'\n"
          [.str program, .str filename]))
      else
        let filename := filename.dropWhile fun c => !myIsalpha c
        let buf := filename.map fun c => if myIsok c then c else 95
        if buf = [] then
          .error (.message (printf
            "%s: no appropriate characters in filename to use for package name -- '%s'\n"
            [.str program, .str filename]))
        else .ok buf
  | some package =>
      if package.head?.all (fun c => !myIsalpha c) ∨ package.tail.any (fun c => !myIsok c) then
        .error (.message (printf "%s: invalid package name -- '%s'\n"
          [.str program, .str package]))
      else .ok package

/-- The loop that counts the digits of `size`: `i` is a power of ten, and `fuel` of its multiples
fit into a `long`. -/
def widthLoop : Nat → Int → Int → Nat → Option Nat
  | 0, _, _, _ => none
  | fuel + 1, i, size, iWidth =>
      if i ≤ size then widthLoop fuel (i * 10) size (iWidth + 1) else some iWidth

/-- What the loop over the table depends on. -/
structure Table where
  width : Nat
  bigendian : Bool
  iWidth : Nat
  columns : Int
  elements : Int
  size : Int

namespace Table

variable (t : Table)

def indent (i : Int) : List UInt8 := if i.tmod t.columns = 0 then printf "    " [] else []

def entry (i : Int) (x : List UInt8) : List UInt8 :=
  let js := List.range t.width
  printf "%*ld => x\"" [.num t.iWidth, .num i] ++
    ((if t.bigendian then js else js.reverse).flatMap fun j =>
      printf "%02x" [byteArg (x.getD j 0)]) ++
    printf "\"" []

def ending (i : Int) : List UInt8 :=
  if i + 1 = t.size then printf ");\n" []
  else if (i + 1).tmod t.columns = 0 then printf ",\n" []
  else printf ", " []

/-- The loop over the table, for the next `m` entries, and whether it came to its end. -/
def loop : Nat → Int → List UInt8 → File → List UInt8 × Bool
  | 0, _, _, _ => ([], true)
  | m + 1, i, x, f =>
      let r := fread x t.width f
      if i < t.elements ∧ r.2.1 ≠ t.width then (t.indent i, false)
      else
        let x := if i < t.elements then r.1 else List.replicate 16 0
        let rest := loop m (i + 1) x (if i < t.elements then r.2.2 else f)
        (t.indent i ++ (t.entry i x ++ (t.ending i ++ rest.1)), rest.2)

end Table

/-- The number of columns of an entry. -/
def Settings.entryWidth (s : Settings) (iWidth : Nat) : Int := iWidth + 6 + s.width * 2 + 3

def Settings.table (s : Settings) (iWidth : Nat) (elements size : Int) : Table :=
  { width := s.width.toNat
    bigendian := s.bigendian
    iWidth := iWidth
    columns := Int.tdiv 76 (s.entryWidth iWidth)
    elements := elements
    size := size }

def vhdComment (first : List UInt8) : List UInt8 :=
  printf "-- AUTOGENERATED FILE (from genramvhd.c run on %s) --\n" [.str first]

/-- What the package is compiled with. -/
def vhdContext : List UInt8 :=
  printf "library IEEE;\n" [] ++ printf "use IEEE.std_logic_1164.all;\n" [] ++
    printf "use IEEE.numeric_std.all;\n" [] ++ printf "\n" [] ++ printf "library work;\n" [] ++
    printf "use work.memory_loader_pkg.all;\n" [] ++ printf "\n" []

def vhdHeader (package : List UInt8) (size width : Int) : List UInt8 :=
  vhdContext ++ printf "package %s_pkg is\n" [.str package] ++
    printf "  constant %s_init : t_meminit_array(%ld downto 0, %ld downto 0) := (\n"
      [.str package, .num (size - 1), .num (width * 8 - 1)]

/-- The output of `genramvhd`.  A table wider than the buffer of 16 bytes, a division by zero and
an overflow in the count of the digits have no result. -/
def printPackage (host : Host) (x : Vector UInt8 16) (first package image : List UInt8)
    (s : Settings) (elements size : Int) : Option Outcome :=
  match widthLoop 18 10 size 1 with
  | none => none
  | some iWidth =>
      if s.entryWidth iWidth = 0 ∨ (0 < size ∧ 16 < s.width) then none
      else
        let r := (s.table iWidth elements size).loop size.toNat 0 x.toList { rest := image }
        let stdout := vhdComment first ++ (vhdHeader package size s.width ++ r.1)
        if r.2 then
          some
            { status := 0
              stdout := stdout ++ printf "end %s_pkg;\n" [.str package]
              stderr := s.stderr }
        else
          some
            { status := 1
              stdout := stdout
              stderr := s.stderr ++ printf "fread: %s\n" [.str host.strerror] }

/-- `main` of `genramvhd.c`.  `x` is what the buffer holds at the start. -/
def genramvhd (host : Host) (x : Vector UInt8 16) (cmd : CommandLine) : Option Outcome :=
  let (s, helped) := getOptions cmd.program {} cmd.opts
  let failed (text : List UInt8) : Option Outcome :=
    some { status := 1, stderr := s.stderr ++ text }
  if helped then failed (help cmd.program)
  else
    match cmd.operands with
    | [filename] =>
        match host.fopen filename with
        | none =>
            failed (printf "%s: %s while opening '%s'\n"
              [.str cmd.program, .str host.strerror, .str filename])
        | some image =>
            match countWords cmd.program filename s image.length with
            | .error .division => none
            | .error (.message text) => failed text
            | .ok (elements, size) =>
                match packageName cmd.program filename s.package with
                | .error .division => none
                | .error (.message text) => failed text
                | .ok package =>
                    printPackage host x cmd.first package image s elements size
    | _ =>
        failed (printf "%s: expecting one non-optional argument: <filename>\n"
          [.str cmd.program])

end Tools
end WrpcSw
