/-
The fields of formatted integers.

A directive is a `%` with flags, a width, a length modifier and one of the integer
conversions.  `parse_options` reads it back (`parseOptions_directive`), and `emit_number`
writes one field for it (`emitNumber_eq`).  The field is faithful:

* `encodeUnsigned_eq` — the scratch buffer holds the digits of the number, the last one first;
* `readNumber_digits` — and the digits read back as the number;
* `formatted_integers_faithful` — the parts of the field, its length, and the count.
-/
import Jixia.Format
import Mathlib.Data.Nat.Digits.Lemmas

namespace Jixia.Format

/-! ### Directives -/

inductive Flag
  | alternate | zero | minus | plus | space
  deriving DecidableEq

def Flag.char : Flag → Char
  | .alternate => '#'
  | .zero => '0'
  | .minus => '-'
  | .plus => '+'
  | .space => ' '

/-- The integer conversions. -/
inductive Conversion
  | d | i | u | o | x | upperX | b | upperB | p
  deriving DecidableEq

def Conversion.char : Conversion → Char
  | .d => 'd'
  | .i => 'i'
  | .u => 'u'
  | .o => 'o'
  | .x => 'x'
  | .upperX => 'X'
  | .b => 'b'
  | .upperB => 'B'
  | .p => 'p'

def Conversion.base : Conversion → ℕ
  | .d | .i | .u => 10
  | .o => 8
  | .x | .upperX | .p => 16
  | .b | .upperB => 2

def Length.text : Length → List Char
  | .normal => []
  | .charWidth => ['h', 'h']
  | .shortWidth => ['h']
  | .longWidth => ['l']
  | .longLongWidth => ['l', 'l']
  | .sizeWidth => ['z']
  | .ptrdiffWidth => ['t']

/-- A directive for an integer. -/
structure Directive where
  flags : List Flag
  width : ℕ
  length : Length
  conversion : Conversion

/-- The decimal numeral of a width; no width is no numeral. -/
def numeral (n : ℕ) : List Char := (Nat.digits 10 n).reverse.map (digitChar false)

/-- What stands behind the `%`. -/
def Directive.body (D : Directive) : List Char :=
  D.flags.map Flag.char ++ (numeral D.width ++ (D.length.text ++ [D.conversion.char]))

def Directive.text (D : Directive) : List Char := '%' :: D.body

/-- The options that the directive stands for. -/
def Directive.options (D : Directive) : Options where
  alternate := .alternate ∈ D.flags
  zeroPad := .zero ∈ D.flags
  leftAlign := .minus ∈ D.flags
  plusSign := .plus ∈ D.flags
  spaceSign := .space ∈ D.flags
  uppercase := D.conversion.char == 'X'
  width := BitVec.ofNat 64 D.width
  length := D.length
  type := D.conversion.char

variable {rest : List Char} {options : Options} {out : Output} {n : ℕ}

/-! ### Parsing -/

/-- The options once more flags are set. -/
def setFlags (flags : List Flag) (options : Options) : Options :=
  { options with
    alternate := options.alternate || decide (.alternate ∈ flags)
    zeroPad := options.zeroPad || decide (.zero ∈ flags)
    leftAlign := options.leftAlign || decide (.minus ∈ flags)
    plusSign := options.plusSign || decide (.plus ∈ flags)
    spaceSign := options.spaceSign || decide (.space ∈ flags) }

theorem setFlags_nil : setFlags [] options = options := by
  simp [setFlags]

theorem parseFlags_flags (flags : List Flag) :
    parseFlags (flags.map Flag.char ++ rest) options =
      parseFlags rest (setFlags flags options) := by
  induction flags generalizing options with
  | nil =>
    rw [setFlags_nil]
    rfl
  | cons flag flags ih =>
    have hset : setFlags (flag :: flags) options = setFlags flags (setFlags [flag] options) := by
      simp only [setFlags, List.mem_cons, List.not_mem_nil, or_false, Bool.decide_or, Bool.or_assoc]
    rw [hset, ← ih, List.map_cons, List.cons_append, parseFlags]
    cases flag <;> simp [Flag.char, setFlags]

/-- The flags end at the first other character. -/
theorem parseFlags_stop (h : ∀ ch ∈ rest.head?, ch ∉ ['#', '0', '-', '+', ' ']) :
    parseFlags rest options = (rest, options) := by
  cases rest with
  | nil => rfl
  | cons ch rest =>
    have hch := h ch rfl
    simp only [List.mem_cons, List.not_mem_nil, or_false, not_or] at hch
    rw [parseFlags, if_neg hch.1, if_neg hch.2.1, if_neg hch.2.2.1, if_neg hch.2.2.2.1,
      if_neg hch.2.2.2.2]

/-- A decimal digit. -/
theorem digitChar_decimal : ∀ d < 10, isDigit (digitChar false d) = true ∧
    (digitChar false d).toNat - '0'.toNat = d := by
  decide

/-- The digits of the width are read as a number. -/
theorem parseWidth_digits {digits : List ℕ} (h : ∀ d ∈ digits, d < 10)
    (hw : options.width = BitVec.ofNat 64 n) :
    parseWidth (digits.map (digitChar false) ++ rest) options = parseWidth rest { options with
      width := BitVec.ofNat 64 (digits.foldl (fun n d => n * 10 + d) n) } := by
  induction digits generalizing options n with
  | nil =>
    rw [List.foldl_nil, ← hw]
    rfl
  | cons d digits ih =>
    obtain ⟨hdigit, hvalue⟩ := digitChar_decimal d (h d List.mem_cons_self)
    have hnext : options.width * 10 + BitVec.ofNat 64 d = BitVec.ofNat 64 (n * 10 + d) := by
      rw [hw, BitVec.ofNat_add, BitVec.ofNat_mul]
      rfl
    rw [List.map_cons, List.cons_append, parseWidth, if_pos hdigit, hvalue, List.foldl_cons]
    exact ih (fun d hd => h d (List.mem_cons_of_mem _ hd)) hnext

/-- The width ends at the first character that is no digit. -/
theorem parseWidth_stop (h : ∀ ch ∈ rest.head?, isDigit ch = false) :
    parseWidth rest options = (rest, options) := by
  cases rest with
  | nil => rfl
  | cons ch rest =>
    rw [parseWidth, h ch rfl]
    rfl

/-- Reading the digits of a number from the front gives the number back. -/
theorem foldl_digits (base n : ℕ) :
    (Nat.digits base n).reverse.foldl (fun n d => n * base + d) 0 = n := by
  rw [List.foldl_reverse]
  have hfold := Nat.ofDigits_eq_foldr base (Nat.digits base n)
  rw [Nat.ofDigits_digits] at hfold
  refine Eq.trans ?_ hfold.symm
  congr 1
  funext d n
  rw [Nat.cast_id, Nat.add_comm, Nat.mul_comm]

/-- The first character behind the width. -/
theorem stop_tail (length : Length) (conversion : Conversion) (rest : List Char) :
    ∀ ch ∈ (length.text ++ [conversion.char] ++ rest).head?,
      isDigit ch = false ∧ ch ∉ ['#', '0', '-', '+', ' '] := by
  cases length <;> cases conversion <;> rintro ch ⟨⟩ <;> decide

theorem parseLength_text (length : Length) (conversion : Conversion) :
    parseLength (length.text ++ [conversion.char] ++ rest) options =
      (conversion.char :: rest, { options with
        length := if length = .normal then options.length else length }) := by
  cases length <;> cases conversion <;> rfl

/-- The first digit of a width is not zero. -/
theorem stop_numeral (hstop : ∀ ch ∈ rest.head?, ch ∉ ['#', '0', '-', '+', ' ']) :
    ∀ ch ∈ (numeral n ++ rest).head?, ch ∉ ['#', '0', '-', '+', ' '] := by
  intro ch hch
  rw [numeral, List.head?_append, List.head?_map, List.head?_reverse] at hch
  by_cases hn : n = 0
  · subst hn
    exact hstop ch hch
  · have hnil : Nat.digits 10 n ≠ [] := Nat.digits_ne_nil_iff_ne_zero.mpr hn
    rw [List.getLast?_eq_getLast_of_ne_nil hnil] at hch
    have hlt : (Nat.digits 10 n).getLast hnil < 10 :=
      Nat.digits_lt_base (by decide) (List.getLast_mem hnil)
    have hpos : (Nat.digits 10 n).getLast hnil ≠ 0 := Nat.getLast_digit_ne_zero 10 hn
    generalize (Nat.digits 10 n).getLast hnil = d at hch hlt hpos
    have hdigit : ∀ d < 10, d ≠ 0 → digitChar false d ∉ ['#', '0', '-', '+', ' '] := by decide
    cases hch
    exact hdigit d hlt hpos

/-- **The options of a directive.** -/
theorem parseOptions_directive (D : Directive) :
    parseOptions (D.body ++ rest) = (rest, D.options) := by
  have htail := stop_tail D.length D.conversion rest
  have hflags : parseFlags (D.body ++ rest) {} =
      (numeral D.width ++ (D.length.text ++ [D.conversion.char] ++ rest), setFlags D.flags {}) := by
    rw [Directive.body, List.append_assoc, List.append_assoc, parseFlags_flags]
    exact parseFlags_stop (stop_numeral fun ch hch => (htail ch hch).2)
  have hdigits : ∀ d ∈ (Nat.digits 10 D.width).reverse, d < 10 := fun d hd =>
    Nat.digits_lt_base (by decide) (List.mem_reverse.mp hd)
  have hwidth : parseWidth (numeral D.width ++ (D.length.text ++ [D.conversion.char] ++ rest))
      (setFlags D.flags {}) = (D.length.text ++ [D.conversion.char] ++ rest,
        { setFlags D.flags {} with width := BitVec.ofNat 64 D.width }) := by
    rw [numeral, parseWidth_digits (n := 0) hdigits rfl, foldl_digits]
    exact parseWidth_stop fun ch hch => (htail ch hch).1
  simp only [parseOptions, hflags, hwidth]
  simp only [parseLength_text, parseType, Directive.options, setFlags, Bool.false_or]
  have hlength : (if D.length = .normal then Length.normal else D.length) = D.length := by
    split <;> simp_all
  rw [hlength]

/-! ### Emission -/

/-- More characters are written and counted. -/
def Output.extend (out : Output) (text : List Char) : Output where
  written := out.written ++ text
  count := out.count + BitVec.ofNat 64 text.length

theorem Output.extend_nil : out.extend [] = out := by
  simp [Output.extend]

theorem Output.extend_extend (s t : List Char) : (out.extend s).extend t = out.extend (s ++ t) := by
  simp only [Output.extend, List.append_assoc, List.length_append, BitVec.ofNat_add,
    BitVec.add_assoc]

theorem emit_eq (ch : Char) : emit out ch = out.extend [ch] := rfl

theorem emitAll_eq (text : List Char) : emitAll out text = out.extend text := by
  induction text generalizing out with
  | nil => exact Output.extend_nil.symm
  | cons ch text ih => rw [emitAll, ih, emit_eq, Output.extend_extend, List.singleton_append]

theorem emitRepeat_eq (ch : Char) (amount : ℕ) :
    emitRepeat out ch amount = out.extend (List.replicate amount ch) := by
  induction amount generalizing out with
  | zero => exact Output.extend_nil.symm
  | succ amount ih =>
    rw [emitRepeat, ih, emit_eq, Output.extend_extend, List.singleton_append, List.replicate_succ]

/-- Padding under a condition. -/
theorem emitPadding_eq (out : Output) (condition : Bool) (ch : Char) (width total : ℕ) :
    (if condition && decide (width > total) then emitRepeat out ch (width - total) else out) =
      out.extend (List.replicate (if condition then width - total else 0) ch) := by
  cases condition with
  | false => exact Output.extend_nil.symm
  | true =>
    rw [Bool.true_and, if_pos rfl, emitRepeat_eq]
    by_cases hgt : width > total
    · rw [if_pos (decide_eq_true hgt)]
    · rw [if_neg (by simpa using hgt), Nat.sub_eq_zero_of_le (Nat.le_of_not_gt hgt)]
      exact Output.extend_nil.symm

/-! ### Fields -/

/-- The parts of a field: spaces, a sign, a prefix, zeros, the digits of the number, and
spaces. -/
structure Field where
  left : ℕ
  sign : List Char
  basePrefix : List Char
  zeros : ℕ
  digits : List Char
  right : ℕ

def Field.text (F : Field) : List Char :=
  List.replicate F.left ' ' ++ F.sign ++ F.basePrefix ++ List.replicate F.zeros '0' ++ F.digits ++
    List.replicate F.right ' '

/-- The parts of a number in a field: the padding is spaces on the left, zeros behind the
prefix, or spaces on the right. -/
def paddedField (options : Options) (sign basePrefix digits : List Char) (minimumDigits : ℕ) :
    Field :=
  let padding := options.width.toNat - (minimumDigits + basePrefix.length + sign.length)
  { left := if !options.leftAlign && !options.zeroPad then padding else 0
    sign := sign
    basePrefix := basePrefix
    zeros := (minimumDigits - digits.length) +
      if !options.leftAlign && options.zeroPad then padding else 0
    digits := digits
    right := if options.leftAlign then padding else 0 }

/-- The field that `emit_number` writes. -/
def numberField (options : Options) (magnitude : Word) (negative : Bool) (base : Word)
    (pointer : Bool) : Field :=
  let scratch := encodeUnsigned base options.uppercase 64 magnitude
  paddedField options (signOf options negative) (prefixOf options base pointer) scratch.reverse
    (if pointer then 16 else scratch.length)

theorem emitNumber_eq (options : Options) (magnitude : Word) (negative : Bool) (base : Word)
    (pointer : Bool) : emitNumber out options magnitude negative base pointer =
      out.extend (numberField options magnitude negative base pointer).text := by
  have hmin : ∀ (out : Output) (m n : ℕ), (if m > n then emitRepeat out '0' (m - n) else out) =
      out.extend (List.replicate (m - n) '0') := fun out m n => by
    have hpad := emitPadding_eq out true '0' m n
    simpa using hpad
  simp only [emitNumber, emitPadding_eq, hmin, emitAll_eq, Output.extend_extend, numberField,
    paddedField, Field.text, List.replicate_add, List.append_assoc, List.length_reverse]

/-! ### Digits -/

/-- The value of a character as a digit. -/
def digitValue (ch : Char) : Option ℕ :=
  if '0' ≤ ch ∧ ch ≤ '9' then some (ch.toNat - '0'.toNat)
  else if 'a' ≤ ch ∧ ch ≤ 'f' then some (ch.toNat - 'a'.toNat + 10)
  else if 'A' ≤ ch ∧ ch ≤ 'F' then some (ch.toNat - 'A'.toNat + 10)
  else none

/-- The number that a string of digits stands for. -/
def readNumber (base : ℕ) (text : List Char) : Option ℕ :=
  text.foldl (fun n ch => n.bind fun n => (digitValue ch).bind fun d =>
    if d < base then some (n * base + d) else none) (some 0)

/-- The digits of a number, the last one first; zero has one. -/
def digitsOf (base n : ℕ) : List ℕ := if n = 0 then [0] else Nat.digits base n

theorem digitsOf_lt {base : ℕ} (hb : 1 < base) : ∀ d ∈ digitsOf base n, d < base := by
  intro d hd
  rw [digitsOf] at hd
  split at hd
  · rw [List.mem_singleton] at hd
    omega
  · exact Nat.digits_lt_base hb hd

theorem foldl_digitsOf (base n : ℕ) :
    (digitsOf base n).reverse.foldl (fun n d => n * base + d) 0 = n := by
  rw [digitsOf]
  split
  · rename_i hzero
    simp [hzero]
  · exact foldl_digits base n

/-- One digit, and the digits of the quotient. -/
theorem digitsOf_eq {base : ℕ} (hb : 1 < base) (n : ℕ) : digitsOf base n =
    n % base :: if n / base = 0 then [] else digitsOf base (n / base) := by
  by_cases hn : n = 0
  · subst hn
    rw [Nat.zero_div, if_pos rfl, Nat.zero_mod]
    rfl
  · rw [digitsOf, if_neg hn, Nat.digits_def' hb (Nat.pos_of_ne_zero hn)]
    split
    · rename_i hzero
      rw [hzero, Nat.digits_zero]
    · rename_i hquot
      rw [digitsOf, if_neg hquot]

/-- **The scratch buffer.**  It is large enough for every number, in every base. -/
theorem encodeUnsigned_eq {base : Word} (hb : 1 < base.toNat) (uppercase : Bool) {capacity : ℕ}
    (hcapacity : 0 < capacity) {value : Word} (hvalue : value.toNat < 2 ^ capacity) :
    encodeUnsigned base uppercase capacity value =
      (digitsOf base.toNat value.toNat).map (digitChar uppercase) := by
  induction capacity generalizing value with
  | zero => cases hcapacity
  | succ capacity ih =>
    have hquot : (value / base).toNat = value.toNat / base.toNat := BitVec.toNat_udiv
    rw [encodeUnsigned, digitsOf_eq hb, List.map_cons, BitVec.toNat_umod]
    refine congrArg _ ?_
    by_cases hzero : value / base = 0
    · have hzero' : value.toNat / base.toNat = 0 := by rw [← hquot, hzero]; rfl
      rw [if_neg (by simp [hzero]), if_pos hzero', List.map_nil]
    · have hzero' : value.toNat / base.toNat ≠ 0 := by
        rw [← hquot]
        exact fun h => hzero (BitVec.eq_of_toNat_eq h)
      have hhalf : value.toNat / base.toNat < 2 ^ capacity := by
        rw [Nat.div_lt_iff_lt_mul (by omega)]
        calc value.toNat < 2 ^ capacity * 2 := by rwa [← Nat.pow_succ]
          _ ≤ 2 ^ capacity * base.toNat := Nat.mul_le_mul_left _ hb
      have hpos : 0 < capacity := by
        rcases Nat.eq_zero_or_pos capacity with rfl | hpos
        · rw [Nat.pow_zero, Nat.lt_one_iff] at hhalf
          exact absurd hhalf hzero'
        · exact hpos
      rw [if_pos (by simpa using hzero), if_neg hzero', ih hpos (by rwa [hquot]), hquot]

theorem digitValue_digitChar (uppercase : Bool) : ∀ d < 16,
    digitValue (digitChar uppercase d) = some d := by
  cases uppercase <;> decide

/-- **Digits read back as the number.** -/
theorem readNumber_digits {base : ℕ} (hb : base ≤ 16) (uppercase : Bool) {digits : List ℕ}
    (hdigits : ∀ d ∈ digits, d < base) : readNumber base (digits.map (digitChar uppercase)) =
      some (digits.foldl (fun n d => n * base + d) 0) := by
  rw [readNumber]
  generalize 0 = n
  induction digits generalizing n with
  | nil => rfl
  | cons d digits ih =>
    have hd := hdigits d List.mem_cons_self
    rw [List.map_cons, List.foldl_cons, List.foldl_cons, Option.bind_some,
      digitValue_digitChar uppercase d (by omega), Option.bind_some, if_pos hd]
    exact ih (fun d hd => hdigits d (List.mem_cons_of_mem _ hd)) _

/-! ### The field of a directive -/

/-- The number of bits that a length modifier leaves of an argument. -/
def Length.bits : Length → ℕ
  | .charWidth => 8
  | .shortWidth => 16
  | .normal => 32
  | .longWidth | .longLongWidth | .sizeWidth | .ptrdiffWidth => 64

/-- The number that a directive prints: a pointer is printed whole, any other argument as
narrowed by the length modifier. -/
def Directive.narrowed (D : Directive) (argument : Word) : ℤ :=
  match D.conversion with
  | .d | .i => (argument.setWidth D.length.bits).toInt
  | .p => argument.toNat
  | .u | .o | .x | .upperX | .b | .upperB => (argument.setWidth D.length.bits).toNat

/-- The characters that name the base of a conversion. -/
def Conversion.basePrefix : Conversion → List Char
  | .d | .i | .u => []
  | .o => ['0']
  | .x | .p => ['0', 'x']
  | .upperX => ['0', 'X']
  | .b => ['0', 'b']
  | .upperB => ['0', 'B']

/-- A pointer has at least 16 digits. -/
def Conversion.minimumDigits : Conversion → ℕ
  | .p => 16
  | _ => 0

/-- The field stands for the number, in the given base and at least the given width. -/
structure Field.Faithful (F : Field) (base width minimumDigits : ℕ) (basePrefix : List Char)
    (value : ℤ) : Prop where
  sign : F.sign ∈ [[], ['-'], ['+'], [' ']]
  names : F.basePrefix = [] ∨ F.basePrefix = basePrefix
  reads : ∃ n : ℕ, readNumber base (List.replicate F.zeros '0' ++ F.digits) = some n ∧
    value = if F.sign = ['-'] then -(n : ℤ) else n
  minimal : F.digits.length = (digitsOf base value.natAbs).length
  length : F.text.length =
    max width (F.sign.length + F.basePrefix.length + max F.digits.length minimumDigits)
  -- Spaces on the left, spaces on the right, or zeros beyond the minimum.
  oneSide : (F.left = 0 ∨ F.right = 0) ∧
    (F.left = 0 ∧ F.right = 0 ∨ F.zeros = minimumDigits - F.digits.length)

theorem Field.text_length (F : Field) : F.text.length =
    F.left + F.sign.length + F.basePrefix.length + F.zeros + F.digits.length + F.right := by
  simp only [Field.text, List.length_append, List.length_replicate]

theorem signOf_mem (options : Options) (negative : Bool) :
    signOf options negative ∈ [[], ['-'], ['+'], [' ']] := by
  rw [signOf]
  split
  · decide
  · split
    · decide
    · split <;> decide

/-- Only a negative number has a minus sign. -/
theorem signOf_minus (options : Options) (negative : Bool) :
    signOf options negative = ['-'] ↔ negative = true := by
  rw [signOf]
  split
  · rename_i hneg
    exact iff_of_true rfl hneg
  · rename_i hneg
    refine iff_of_false ?_ hneg
    split
    · decide
    · split <;> decide

section Faithful

variable {sign basePrefix digits : List Char} {minimumDigits : ℕ}

/-- Whatever the padding, the field has its width. -/
theorem paddedField_length (h : digits.length ≤ minimumDigits) :
    (paddedField options sign basePrefix digits minimumDigits).text.length =
      max options.width.toNat (sign.length + basePrefix.length + minimumDigits) := by
  rw [Field.text_length, paddedField]
  generalize options.width.toNat = width
  cases options.leftAlign <;> cases options.zeroPad <;>
    simp only [Bool.not_true, Bool.not_false, Bool.and_true, Bool.and_false, Bool.and_self,
      Bool.false_eq_true, if_true, if_false] <;> omega

theorem paddedField_oneSide (options : Options) (sign basePrefix digits : List Char)
    (minimumDigits : ℕ) :
    let F := paddedField options sign basePrefix digits minimumDigits
    (F.left = 0 ∨ F.right = 0) ∧
      (F.left = 0 ∧ F.right = 0 ∨ F.zeros = minimumDigits - digits.length) := by
  simp only [paddedField]
  cases options.leftAlign <;> cases options.zeroPad <;> simp

variable {magnitude base : Word} {negative pointer : Bool} {value : ℤ}

/-- Zeros in front of the digits do not change the number. -/
theorem readNumber_zeros (hb : 1 < base.toNat) (hb' : base.toNat ≤ 16) (uppercase : Bool)
    (zeros n : ℕ) : readNumber base.toNat (List.replicate zeros '0' ++
      ((digitsOf base.toNat n).map (digitChar uppercase)).reverse) = some n := by
  have hfold : (List.replicate zeros 0).foldl (fun n d => n * base.toNat + d) 0 = 0 := by
    induction zeros with
    | zero => rfl
    | succ zeros ih => rw [List.replicate_succ, List.foldl_cons, Nat.zero_mul, ih]
  have hzero : List.replicate zeros '0' =
      (List.replicate zeros 0).map (digitChar uppercase) := by
    rw [List.map_replicate]
    cases uppercase <;> rfl
  rw [hzero, ← List.map_reverse, ← List.map_append, readNumber_digits hb', List.foldl_append,
    hfold, foldl_digitsOf]
  intro d hd
  rcases List.mem_append.mp hd with hd | hd
  · rw [List.eq_of_mem_replicate hd]
    omega
  · exact digitsOf_lt hb d (List.mem_reverse.mp hd)

/-- **The field of a number is faithful.** -/
theorem numberField_faithful (hb : 1 < base.toNat) (hb' : base.toNat ≤ 16)
    (hvalue : value = if negative then -(magnitude.toNat : ℤ) else magnitude.toNat)
    (hpre : prefixOf options base pointer = [] ∨ prefixOf options base pointer = basePrefix)
    (hmin : minimumDigits = if pointer then 16 else 0)
    (hpointer : pointer = true → (digitsOf base.toNat magnitude.toNat).length ≤ 16) :
    (numberField options magnitude negative base pointer).Faithful base.toNat
      options.width.toNat minimumDigits basePrefix value := by
  have hscratch : encodeUnsigned base options.uppercase 64 magnitude =
      (digitsOf base.toNat magnitude.toNat).map (digitChar options.uppercase) :=
    encodeUnsigned_eq hb _ (by decide) magnitude.isLt
  have habs : value.natAbs = magnitude.toNat := by
    rw [hvalue]
    split
    · rw [Int.natAbs_neg, Int.natAbs_natCast]
    · rw [Int.natAbs_natCast]
  have hlen : (encodeUnsigned base options.uppercase 64 magnitude).reverse.length =
      (digitsOf base.toNat magnitude.toNat).length := by
    rw [List.length_reverse, hscratch, List.length_map]
  have hminimum : (if pointer then 16
      else (encodeUnsigned base options.uppercase 64 magnitude).length) =
        max (encodeUnsigned base options.uppercase 64 magnitude).reverse.length minimumDigits := by
    rw [hmin, hlen, ← List.length_reverse, hlen]
    cases pointer with
    | false => simp
    | true => simpa using hpointer rfl
  rw [numberField]
  simp only [hminimum]
  refine ⟨signOf_mem .., hpre, ⟨magnitude.toNat, ?_, ?_⟩, ?_, ?_, ?_⟩
  · simp only [paddedField, hscratch]
    exact readNumber_zeros hb hb' ..
  · rw [hvalue]
    exact if_congr (signOf_minus ..).symm rfl rfl
  · rw [habs]
    exact hlen
  · exact paddedField_length (le_max_left ..)
  · obtain ⟨hside, hzeros⟩ := paddedField_oneSide options (signOf options negative)
      (prefixOf options base pointer)
      (encodeUnsigned base options.uppercase 64 magnitude).reverse
      (max (encodeUnsigned base options.uppercase 64 magnitude).reverse.length minimumDigits)
    refine ⟨hside, hzeros.imp_right fun hz => hz.trans ?_⟩
    simp only [paddedField]
    omega

end Faithful

/-- The field that is written for a directive. -/
def Directive.field (D : Directive) (argument : Word) : Field :=
  let signed := readSigned D.length argument
  let unsigned := readUnsigned D.length argument
  match D.conversion with
  | .d | .i => numberField D.options (if signed.toInt < 0 then 0 - signed else signed)
      (signed.toInt < 0) 10 false
  | .u => numberField D.options unsigned false 10 false
  | .o => numberField D.options unsigned false 8 false
  | .x | .upperX => numberField D.options unsigned false 16 false
  | .b => numberField { D.options with uppercase := false } unsigned false 2 false
  | .upperB => numberField { D.options with uppercase := true } unsigned false 2 false
  | .p => numberField { D.options with alternate := true } argument false 16 true

theorem emitWord_eq (D : Directive) (argument : Word) :
    emitWord out D.options argument = out.extend (D.field argument).text := by
  obtain ⟨flags, width, length, conversion⟩ := D
  cases conversion <;> exact emitNumber_eq ..

section Directives

variable (D : Directive) (argument : Word)

theorem readSigned_toInt (length : Length) :
    (readSigned length argument).toInt = (argument.setWidth length.bits).toInt := by
  cases length with
  | charWidth | shortWidth | normal => exact BitVec.toInt_signExtend_of_le (by decide)
  | longWidth | longLongWidth | sizeWidth | ptrdiffWidth =>
    exact congrArg BitVec.toInt (BitVec.setWidth_eq argument).symm

theorem readUnsigned_toNat (length : Length) :
    (readUnsigned length argument).toNat = (argument.setWidth length.bits).toNat := by
  cases length with
  | charWidth | shortWidth | normal => exact BitVec.toNat_setWidth_of_le (by decide)
  | longWidth | longLongWidth | sizeWidth | ptrdiffWidth =>
    exact congrArg BitVec.toNat (BitVec.setWidth_eq argument).symm

/-- The magnitude of a signed number, also of the most negative one. -/
theorem toInt_eq_magnitude (value : Word) : value.toInt =
    if decide (value.toInt < 0) then
      -((if value.toInt < 0 then 0 - value else value).toNat : ℤ)
    else (if value.toInt < 0 then 0 - value else value).toNat := by
  have hlt := value.isLt
  rw [BitVec.toInt_eq_toNat_cond]
  by_cases hneg : 2 * value.toNat < 2 ^ 64
  · have hpos : ¬ ((value.toNat : ℤ) < 0) := by omega
    simp only [if_pos hneg, hpos, decide_false, if_false, Bool.false_eq_true]
  · have hneg' : (value.toNat : ℤ) - (2 ^ 64 : ℕ) < 0 := by omega
    simp only [if_neg hneg, hneg', decide_true, if_true, BitVec.toNat_sub]
    have hzero : (0 : Word).toNat = 0 := rfl
    rw [hzero]
    omega

/-- A pointer has at most 16 digits. -/
theorem digitsOf_pointer : (digitsOf 16 argument.toNat).length ≤ 16 := by
  rw [digitsOf]
  split
  · decide
  · exact (Nat.digits_length_le_iff (by decide) argument.toNat).mpr argument.isLt

/-- The prefix is left out or names the base. -/
theorem prefixOf_or (options : Options) (base : Word) (pointer : Bool) :
    prefixOf options base pointer = [] ∨ prefixOf options base pointer =
      if base == 16 then ['0', if options.uppercase then 'X' else 'x']
      else if base == 8 then ['0']
      else if base == 2 then ['0', if options.uppercase then 'B' else 'b']
      else [] := by
  rw [prefixOf]
  split
  · exact .inr rfl
  · exact .inl rfl

/-- **The field of a directive is faithful.** -/
theorem Directive.field_faithful (hwidth : D.width < 18446744073709551616) :
    (D.field argument).Faithful D.conversion.base D.width D.conversion.minimumDigits
      D.conversion.basePrefix (D.narrowed argument) := by
  have hw : D.options.width.toNat = D.width := by
    rw [Directive.options, BitVec.toNat_ofNat]
    exact Nat.mod_eq_of_lt hwidth
  have hsigned := (readSigned_toInt argument D.length).symm.trans (toInt_eq_magnitude _)
  have hunsigned := congrArg Int.ofNat (readUnsigned_toNat argument D.length).symm
  rw [← hw]
  obtain ⟨flags, width, length, conversion⟩ := D
  cases conversion with
  | d | i =>
    exact numberField_faithful (by decide) (by decide) hsigned (prefixOf_or ..) rfl
      fun h => Bool.noConfusion h
  | u | o | x | upperX | b | upperB =>
    exact numberField_faithful (by decide) (by decide) hunsigned (prefixOf_or ..) rfl
      fun h => Bool.noConfusion h
  | p =>
    exact numberField_faithful (by decide) (by decide) rfl (prefixOf_or ..) rfl
      fun _ => digitsOf_pointer argument

/-- Apart from the width, a field is short. -/
theorem Directive.field_short : (D.field argument).sign.length +
    (D.field argument).basePrefix.length + max (D.field argument).digits.length 16 ≤ 67 := by
  have hencode : ∀ (base : Word) (uppercase : Bool) (capacity : ℕ) (value : Word),
      (encodeUnsigned base uppercase capacity value).length ≤ capacity := by
    intro base uppercase capacity
    induction capacity with
    | zero => exact fun _ => le_rfl
    | succ capacity ih =>
      intro value
      rw [encodeUnsigned, List.length_cons]
      split
      · exact Nat.succ_le_succ (ih _)
      · exact Nat.succ_le_succ (Nat.zero_le _)
  have hsign : ∀ (options : Options) (negative : Bool),
      (signOf options negative).length ≤ 1 := fun options negative => by
    have hmem := signOf_mem options negative
    generalize signOf options negative = sign at hmem
    revert sign
    decide
  have hprefix : ∀ (options : Options) (base : Word) (pointer : Bool),
      (prefixOf options base pointer).length ≤ 2 := fun options base pointer => by
    rw [prefixOf]
    split
    · split
      · exact le_rfl
      · split
        · exact Nat.le_succ 1
        · split
          · exact le_rfl
          · exact Nat.zero_le 2
    · exact Nat.zero_le 2
  have hnumber : ∀ (options : Options) (magnitude base : Word) (negative pointer : Bool),
      let F := numberField options magnitude negative base pointer
      F.sign.length + F.basePrefix.length + max F.digits.length 16 ≤ 67 := by
    intro options magnitude base negative pointer
    have hdigits := hencode base options.uppercase 64 magnitude
    rw [← List.length_reverse] at hdigits
    simp only [numberField, paddedField]
    have := hsign options negative
    have := hprefix options base pointer
    omega
  obtain ⟨flags, width, length, conversion⟩ := D
  cases conversion <;> exact hnumber ..

/-! ### The interpreter -/

/-- The characters of a directive behind the `%` are no `%`. -/
theorem Directive.body_ne : ∀ ch ∈ D.body, ch ≠ '%' := by
  have hflag : ∀ flag : Flag, flag.char ≠ '%' := by
    intro flag
    cases flag <;> decide
  have hdigit : ∀ d < 10, digitChar false d ≠ '%' := by decide
  have htail : ∀ (length : Length) (conversion : Conversion),
      ∀ ch ∈ length.text ++ [conversion.char], ch ≠ '%' := by
    intro length conversion
    cases length <;> cases conversion <;> simp [Length.text, Conversion.char]
  intro ch hch
  rw [Directive.body, List.mem_append, List.mem_append] at hch
  rcases hch with hch | hch | hch
  · obtain ⟨flag, -, rfl⟩ := List.mem_map.mp hch
    exact hflag flag
  · obtain ⟨d, hd, rfl⟩ := List.mem_map.mp hch
    exact hdigit d (Nat.digits_lt_base (by decide) (List.mem_reverse.mp hd))
  · exact htail _ _ ch hch

/-- **One turn of the interpreter at a directive.** -/
theorem formatFrom_directive (turns : ℕ) (rest : List Char) (args : List Argument)
    (out : Output) : formatFrom (turns + 1) (D.text ++ rest) (.word argument :: args) out =
      formatFrom turns rest args (out.extend (D.field argument).text) := by
  have hhead : (D.body ++ rest).head? ≠ some '%' := by
    cases hbody : D.body with
    | nil =>
      have hlen := congrArg List.length hbody
      rw [Directive.body, List.length_append, List.length_append, List.length_append,
        List.length_singleton, List.length_nil] at hlen
      omega
    | cons ch body =>
      have hne := D.body_ne ch (hbody ▸ List.mem_cons_self)
      exact fun h => hne (Option.some.inj h)
  have htype : D.options.type ≠ '\x00' ∧ D.options.type ≠ 's' ∧
      takesWord D.options.type = true := by
    have hconversion : ∀ conversion : Conversion, conversion.char ≠ '\x00' ∧
        conversion.char ≠ 's' ∧ takesWord conversion.char = true := by
      intro conversion
      cases conversion <;> decide
    exact hconversion D.conversion
  rw [Directive.text, List.cons_append, formatFrom, if_neg (not_not_intro rfl), if_neg hhead]
  simp only [parseOptions_directive]
  rw [if_neg htype.1, if_neg htype.2.1, if_pos htype.2.2, emitWord_eq]

end Directives

/-- A conversion of a word extends the output. -/
theorem emitWord_extends (out : Output) (options : Options) (argument : Word) :
    ∃ text, emitWord out options argument = out.extend text := by
  simp only [emitWord, emitSigned, emitNumber_eq, emit_eq]
  split
  · exact ⟨_, rfl⟩
  repeat'
    split
    · exact ⟨_, rfl⟩
  exact ⟨_, rfl⟩

/-- Every turn extends the output, and counts what it writes. -/
theorem formatFrom_extends {turns : ℕ} {cursor : List Char} {args : List Argument} {out' : Output}
    (h : formatFrom turns cursor args out = some out') : ∃ text, out' = out.extend text := by
  induction turns generalizing cursor args out with
  | zero =>
    cases cursor with
    | nil =>
      cases h
      exact ⟨[], Output.extend_nil.symm⟩
    | cons ch cursor => cases h
  | succ turns ih =>
    have hstep : ∀ {cursor args text}, formatFrom turns cursor args (out.extend text) = some out' →
        ∃ text, out' = out.extend text := fun hrest => by
      obtain ⟨text', rfl⟩ := ih hrest
      exact ⟨_, Output.extend_extend ..⟩
    cases cursor with
    | nil =>
      cases h
      exact ⟨[], Output.extend_nil.symm⟩
    | cons ch cursor =>
      rw [formatFrom] at h
      simp only [emit_eq, emitText, emitAll_eq, Output.extend_extend] at h
      split at h
      · exact hstep h
      split at h
      · exact hstep h
      split at h
      · cases h
        exact ⟨_, rfl⟩
      split at h
      · split at h
        · exact hstep h
        · cases h
      split at h
      · split at h
        · obtain ⟨text, htext⟩ := emitWord_extends out (parseOptions cursor).2 _
          rw [htext] at h
          exact hstep h
        · cases h
      · exact hstep h

/-- **The count of a call**, modulo the size of `size_t`. -/
theorem vformat_count {format : List Char} {args : List Argument} {out : Output}
    (h : vformat true (some format) args = some out) :
    out.count = BitVec.ofNat 64 out.written.length := by
  obtain ⟨text, rfl⟩ := formatFrom_extends h
  exact BitVec.zero_add _

/-- **Formatted integers are faithful.**  For every directive and every argument there is one
field: spaces, a sign, the prefix of the base, digits and spaces, padded on one side only.  Its
digits with its sign are the argument as narrowed by the length modifier, a pointer excepted,
which is printed whole; its length is the width, or what the number needs.  The field is what
`vformat` writes for the directive, alone or as part of a longer format, and the count that is
returned is its length. -/
theorem formatted_integers_faithful (D : Directive) (hwidth : D.width < 18446744073709551616)
    (argument : Word) : ∃ F : Field,
    F.Faithful D.conversion.base D.width D.conversion.minimumDigits D.conversion.basePrefix
      (D.narrowed argument) ∧
    (∃ out, vformat true (some D.text) [.word argument] = some out ∧ out.written = F.text ∧
      out.count.toNat = F.text.length) ∧
    (∀ turns rest args out, formatFrom (turns + 1) (D.text ++ rest) (.word argument :: args) out =
      formatFrom turns rest args (out.extend F.text)) ∧
    ∀ format args out, vformat true (some format) args = some out →
      out.count = BitVec.ofNat 64 out.written.length := by
  have hfaithful := D.field_faithful argument hwidth
  refine ⟨D.field argument, hfaithful, ⟨({} : Output).extend (D.field argument).text, ?_, rfl, ?_⟩,
    fun turns rest args out => formatFrom_directive D argument turns rest args out,
    fun _ _ _ h => vformat_count h⟩
  · have hturn := formatFrom_directive D argument D.body.length [] [] {}
    rw [List.append_nil, formatFrom] at hturn
    exact hturn
  · -- The field is shorter than the address space.
    have hlt : (D.field argument).text.length < 18446744073709551616 := by
      have hshort := D.field_short argument
      have hmin : D.conversion.minimumDigits ≤ 16 := by
        cases D.conversion <;> decide
      rw [hfaithful.length]
      omega
    have hcount : (({} : Output).extend (D.field argument).text).count =
        BitVec.ofNat 64 (D.field argument).text.length := BitVec.zero_add _
    rw [hcount, BitVec.toNat_ofNat]
    exact Nat.mod_eq_of_lt hlt

/-- The directive `%+08hhd`, and an argument that is narrowed to the most negative number. -/
theorem formatted_integers_faithful_sample : ∃ F : Field, F.Faithful 10 8 0 [] (-128) ∧
    ∃ out, vformat true (some ['%', '+', '0', '8', 'h', 'h', 'd']) [.word 0x1280] = some out ∧
      out.written = F.text ∧ out.count.toNat = F.text.length := by
  obtain ⟨F, hF, hout, -⟩ := formatted_integers_faithful ⟨[.plus, .zero], 8, .charWidth, .d⟩
    (by decide) 0x1280
  exact ⟨F, hF, hout⟩

/-- **A pointer is not narrowed by its length modifier.** -/
theorem pointer_not_narrowed :
    vformat true (some ['%', 'h', 'h', 'p']) [.word 0x1234] = some
      ⟨['0', 'x', '0', '0', '0', '0', '0', '0', '0', '0', '0', '0', '0', '0', '1', '2', '3', '4'],
        18⟩ ∧
    readNumber 16 ['0', '0', '0', '0', '0', '0', '0', '0', '0', '0', '0', '0', '1', '2', '3', '4'] =
      some 0x1234 ∧
    ((0x1234 : Word).setWidth Length.charWidth.bits).toNat = 0x34 := by
  decide

end Jixia.Format
