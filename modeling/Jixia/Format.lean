/-
Formatted output.

`format.cpp` interprets a format string and hands every character to a writer, counting
them.  A C string is a list of characters, its end is the `'\0'` behind it; the writer is
modelled by what it has been given.  A `va_list` is a list of arguments: 64-bit words, of
which `va_arg` takes the low bits, and strings.  Reading an argument that is missing or of
another kind is undefined behaviour, and the model has no result there.
-/
import Jixia.Kernel

namespace Jixia.Format

inductive Length
  | normal | charWidth | shortWidth | longWidth | longLongWidth | sizeWidth | ptrdiffWidth
  deriving DecidableEq

structure Options where
  alternate : Bool := false
  zeroPad : Bool := false
  leftAlign : Bool := false
  plusSign : Bool := false
  spaceSign : Bool := false
  uppercase : Bool := false
  width : Word := 0
  length : Length := .normal
  type : Char := '\x00'
  deriving DecidableEq

/-- An argument of the call. -/
inductive Argument
  | word (value : Word)
  | text (string : Option (List Char))

/-- What the writer was given, and the count of the caller. -/
structure Output where
  written : List Char := []
  count : Word := 0
  deriving DecidableEq

def isDigit (ch : Char) : Bool := '0' ≤ ch && ch ≤ '9'

/-! ### Emission -/

def emit (out : Output) (ch : Char) : Output :=
  { written := out.written ++ [ch], count := out.count + 1 }

def emitRepeat (out : Output) (ch : Char) : ℕ → Output
  | 0 => out
  | amount + 1 => emitRepeat (emit out ch) ch amount

/-- Emit the characters of a string in turn. -/
def emitAll (out : Output) : List Char → Output
  | [] => out
  | ch :: text => emitAll (emit out ch) text

/-- `emit_text`; a null pointer is printed as `(null)`. -/
def emitText (out : Output) (text : Option (List Char)) : Output :=
  emitAll out (text.getD ['(', 'n', 'u', 'l', 'l', ')'])

/-! ### Options -/

/-- The flags of a conversion. -/
def parseFlags : List Char → Options → List Char × Options
  | [], options => ([], options)
  | ch :: rest, options =>
    if ch = '#' then parseFlags rest { options with alternate := true }
    else if ch = '0' then parseFlags rest { options with zeroPad := true }
    else if ch = '-' then parseFlags rest { options with leftAlign := true }
    else if ch = '+' then parseFlags rest { options with plusSign := true }
    else if ch = ' ' then parseFlags rest { options with spaceSign := true }
    else (ch :: rest, options)

/-- The decimal width, modulo the size of `size_t`. -/
def parseWidth : List Char → Options → List Char × Options
  | [], options => ([], options)
  | ch :: rest, options =>
    if isDigit ch then
      parseWidth rest { options with
        width := options.width * 10 + BitVec.ofNat 64 (ch.toNat - '0'.toNat) }
    else (ch :: rest, options)

/-- The length modifier. -/
def parseLength (cursor : List Char) (options : Options) : List Char × Options :=
  match cursor with
  | [] => ([], options)
  | ch :: rest =>
    if ch = 'h' then
      if rest.head? = some 'h' then (rest.tail, { options with length := .charWidth })
      else (rest, { options with length := .shortWidth })
    else if ch = 'l' then
      if rest.head? = some 'l' then (rest.tail, { options with length := .longLongWidth })
      else (rest, { options with length := .longWidth })
    else if ch = 'z' then (rest, { options with length := .sizeWidth })
    else if ch = 't' then (rest, { options with length := .ptrdiffWidth })
    else (ch :: rest, options)

/-- The conversion character; at the end of the string it is `'\0'`. -/
def parseType (cursor : List Char) (options : Options) : List Char × Options :=
  match cursor with
  | [] => ([], { options with type := '\x00' })
  | ch :: rest => (rest, { options with type := ch, uppercase := ch == 'X' })

/-- `parse_options`: the rest of the string, and the options. -/
def parseOptions (cursor : List Char) : List Char × Options :=
  let (cursor, options) := parseFlags cursor {}
  let (cursor, options) := parseWidth cursor options
  let (cursor, options) := parseLength cursor options
  parseType cursor options

/-! ### Numbers -/

def lowerDigits : List Char :=
  ['0', '1', '2', '3', '4', '5', '6', '7', '8', '9', 'a', 'b', 'c', 'd', 'e', 'f']

def upperDigits : List Char :=
  ['0', '1', '2', '3', '4', '5', '6', '7', '8', '9', 'A', 'B', 'C', 'D', 'E', 'F']

/-- The character of a digit. -/
def digitChar (uppercase : Bool) (digit : ℕ) : Char :=
  (if uppercase then upperDigits else lowerDigits).getD digit '\x00'

/-- `encode_unsigned`: the digits in the order in which they are put into the scratch buffer,
the last one first, while there is capacity. -/
def encodeUnsigned (base : Word) (uppercase : Bool) : ℕ → Word → List Char
  | 0, _ => []
  | capacity + 1, value =>
    digitChar uppercase (value % base).toNat ::
      if value / base != 0 then encodeUnsigned base uppercase capacity (value / base) else []

/-- The sign character, if there is one. -/
def signOf (options : Options) (negative : Bool) : List Char :=
  if negative then ['-']
  else if options.plusSign then ['+']
  else if options.spaceSign then [' ']
  else []

/-- The characters in front of the digits that name the base. -/
def prefixOf (options : Options) (base : Word) (pointer : Bool) : List Char :=
  if pointer || options.alternate then
    if base == 16 then ['0', if options.uppercase then 'X' else 'x']
    else if base == 8 then ['0']
    else if base == 2 then ['0', if options.uppercase then 'B' else 'b']
    else []
  else []

/-- `emit_number`. -/
def emitNumber (out : Output) (options : Options) (magnitude : Word) (negative : Bool)
    (base : Word) (pointer : Bool) : Output :=
  let scratch := encodeUnsigned base options.uppercase 64 magnitude
  let sign := signOf options negative
  let basePrefix := prefixOf options base pointer
  let minimumDigits := if pointer then 16 else scratch.length
  let totalLength := minimumDigits + basePrefix.length + sign.length
  let padding := options.width.toNat - totalLength
  let out := if !options.leftAlign && !options.zeroPad && options.width.toNat > totalLength then
      emitRepeat out ' ' padding else out
  let out := emitAll out sign
  let out := emitAll out basePrefix
  let out := if minimumDigits > scratch.length then
      emitRepeat out '0' (minimumDigits - scratch.length) else out
  let out := if !options.leftAlign && options.zeroPad && options.width.toNat > totalLength then
      emitRepeat out '0' padding else out
  let out := emitAll out scratch.reverse
  if options.leftAlign && options.width.toNat > totalLength then emitRepeat out ' ' padding
  else out

/-- `read_unsigned`. -/
def readUnsigned (length : Length) (argument : Word) : Word :=
  match length with
  | .charWidth => (argument.setWidth 8).setWidth 64
  | .shortWidth => (argument.setWidth 16).setWidth 64
  | .longWidth | .longLongWidth | .sizeWidth | .ptrdiffWidth => argument
  | .normal => (argument.setWidth 32).setWidth 64

/-- `read_signed`. -/
def readSigned (length : Length) (argument : Word) : Word :=
  match length with
  | .charWidth => (argument.setWidth 8).signExtend 64
  | .shortWidth => (argument.setWidth 16).signExtend 64
  | .longWidth | .longLongWidth | .sizeWidth | .ptrdiffWidth => argument
  | .normal => (argument.setWidth 32).signExtend 64

/-! ### The interpreter -/

/-- The `d` and `i` conversions. -/
def emitSigned (out : Output) (options : Options) (value : Word) : Output :=
  let negative := value.toInt < 0
  emitNumber out options (if negative then 0 - value else value) negative 10 false

/-- A conversion with a word as its argument. -/
def emitWord (out : Output) (options : Options) (argument : Word) : Output :=
  if options.type = 'c' then emit out (Char.ofNat (argument.setWidth 8).toNat)
  else if options.type = 'd' ∨ options.type = 'i' then
    emitSigned out options (readSigned options.length argument)
  else if options.type = 'u' then
    emitNumber out options (readUnsigned options.length argument) false 10 false
  else if options.type = 'o' then
    emitNumber out options (readUnsigned options.length argument) false 8 false
  else if options.type = 'x' ∨ options.type = 'X' then
    emitNumber out options (readUnsigned options.length argument) false 16 false
  else if options.type = 'b' ∨ options.type = 'B' then
    emitNumber out { options with uppercase := options.type == 'B' }
      (readUnsigned options.length argument) false 2 false
  else
    emitNumber out { options with alternate := true } argument false 16 true

/-- The conversions that take a word. -/
def takesWord (type : Char) : Bool :=
  type ∈ ['c', 'd', 'i', 'u', 'o', 'x', 'X', 'b', 'B', 'p']

/-- The loop of `vformat`; every turn consumes a character, so the length of the string
bounds the number of turns. -/
def formatFrom : ℕ → List Char → List Argument → Output → Option Output
  | _, [], _, out => some out
  | 0, _ :: _, _, _ => none
  | turns + 1, ch :: cursor, args, out =>
    if ch ≠ '%' then formatFrom turns cursor args (emit out ch)
    else if cursor.head? = some '%' then formatFrom turns cursor.tail args (emit out '%')
    else
      let (cursor, options) := parseOptions cursor
      if options.type = '\x00' then some (emit out '%')
      else if options.type = 's' then
        match args with
        | .text string :: args => formatFrom turns cursor args (emitText out string)
        | _ => none
      else if takesWord options.type then
        match args with
        | .word argument :: args => formatFrom turns cursor args (emitWord out options argument)
        | _ => none
      else formatFrom turns cursor args (emit (emit out '%') options.type)

/-- `vformat`, with a null pointer for a writer that is not valid or a format that is not
there. -/
def vformat (writerValid : Bool) (format : Option (List Char)) (args : List Argument) :
    Option Output :=
  match writerValid, format with
  | true, some format => formatFrom format.length format args {}
  | _, _ => some {}

end Jixia.Format
