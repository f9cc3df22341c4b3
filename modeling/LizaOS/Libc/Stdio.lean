-- SUMMARY: The kernel's formatted output: the format parser, the integer and string conversions, and the printing entry points.
import LizaOS.Drivers.Vga

/-!
# Formatted output

`libc/stdio.c`. `print` is split at the point where it reaches memory: `print` itself parses the
format and reads its arguments, and gives the pieces to be put out in order. A piece is either bytes
that are known then, or a `%s` string, which is read from memory when its turn comes.

A format is the list of its bytes before the terminating NUL, and the cursor `fmt` is the rest of
that list: dereferencing the empty rest gives the NUL, and moving past it is `Stop.overrun`.
-/

namespace LizaOS

/-! ## Flags -/

def leftJust : Word := 0x1#32
def showSign : Word := 0x2#32
def hideSign : Word := 0x4#32
def dispHexd : Word := 0x8#32
def padwZero : Word := 0x10#32

def dataLong : Word := 0x1#32
def dataLlgn : Word := 0x2#32
def dataShrt : Word := 0x4#32

/-- `flags & bit` as a C condition. -/
def hasFlag (flags bit : Word) : Bool := flags &&& bit ≠ 0#32

/-- The size of the digit buffer, `PRINT_BUF_LEN`. -/
def printBufLen : Nat := 65

def chr (c : Char) : Byte := BitVec.ofNat 8 c.toNat

/-! ## Conversions -/

/-- `prints`: the bytes put out for a string, padded to `width`. -/
def prints (string : List Byte) (width : Int) (flags : Word) : List Byte :=
  let short := ¬(string.length : Int) ≥ width
  let padc := if short ∧ hasFlag flags padwZero then chr '0' else chr ' '
  let width := if short then width - string.length else 0
  let hexd := if hasFlag flags dispHexd then cstr "0x" else []
  let padding := List.replicate width.toNat padc
  if hasFlag flags leftJust then
    hexd ++
      if width ≠ 0 then
        -- with zeros the padding comes first even when left justified
        if hasFlag flags padwZero then padding ++ string else string ++ padding
      else string
  else
    (if width ≠ 0 ∧ ¬hasFlag flags padwZero then padding ++ hexd
      else if width ≠ 0 ∧ hasFlag flags padwZero then hexd ++ padding
      else hexd) ++ string

/-- The digit loop of `printi`. The digits are stored from the end of the buffer backwards, so each
new one goes before those in `buffer`. -/
def digits (base : Nat) (convbase : Byte) : Nat → Nat → List Byte → List Byte
  | 0, _, buffer => buffer
  | fuel + 1, u, buffer =>
      if u = 0 then buffer
      else
        let rem := u % base
        let c : Byte :=
          if rem ≥ 10 then BitVec.ofNat 8 (rem - 10) + convbase else BitVec.ofNat 8 rem + chr '0'
        digits base convbase fuel (u / base) (c :: buffer)

/-- `printi`: the bytes put out for a number. `int64` is a 32-bit `long` on this target. -/
def printi (num : Word) (base : Int) (sign : Bool) (width : Int) (flags : Word) (convbase : Byte) :
    List Byte :=
  if base < 2 then []
  else
    let flags := if base ≠ 16 then flags &&& ~~~dispHexd else flags
    if num = 0#32 then prints [chr '0'] width flags
    else
      let neg := sign ∧ base = 10 ∧ num.toInt < 0
      let u := if neg then (-num).toNat else num.toNat
      let buffer := digits base.toNat convbase printBufLen u []
      if ¬hasFlag flags hideSign ∧ base = 10 then
        let plus := hasFlag flags showSign ∧ ¬neg
        if hasFlag flags padwZero then
          let signs := (if plus then [chr '+'] else []) ++ if neg then [chr '-'] else []
          signs ++ prints buffer (width - signs.length) flags
        else
          let buffer := if plus then chr '+' :: buffer else buffer
          prints (if neg then chr '-' :: buffer else buffer) width flags
      else prints buffer width flags

/-! ## The format parser -/

/-- What one conversion puts out. -/
inductive Piece where
  | text (bs : List Byte)
  /-- A string in memory, to be padded by `prints`. -/
  | string (ptr : Word) (width : Int) (flags : Word)
  deriving DecidableEq, Repr

/-- The value of an `int32` after an arithmetic step. -/
def toInt32 (x : Int) : Int := x.bmod (2 ^ 32)

def isDigit (c : Byte) : Bool := chr '0' ≤ c ∧ c ≤ chr '9'

/-- The byte at the cursor. -/
def deref (fmt : List Byte) : Byte := fmt.headD 0#8

/-- The flag a format byte stands for. -/
def flagOf (c : Byte) : Option Word :=
  if c = chr '-' then some leftJust
  else if c = chr '+' then some showSign
  else if c = chr ' ' then some hideSign
  else if c = chr '#' then some dispHexd
  else if c = chr '0' then some padwZero
  else none

/-- The flags stage: the flags read and the cursor at the first byte that is none. -/
def scanFlags : List Byte → Word → Word × List Byte
  | [], flags => (flags, [])
  | c :: rest, flags =>
      match flagOf c with
      | some f => scanFlags rest (flags ||| f)
      | none => (flags, c :: rest)

/-- The width stage. -/
def scanWidth : List Byte → Int → Int × List Byte
  | [], width => (width, [])
  | c :: rest, width =>
      if isDigit c then
        let width := toInt32 (width + ((c - chr '0').toNat : Int))
        scanWidth rest (if isDigit (deref rest) then toInt32 (width * 10) else width)
      else (width, c :: rest)

/-- The bit length stage. -/
def scanLength : List Byte → Word → Word × List Byte
  | [], flags => (flags, [])
  | c :: rest, flags =>
      if c = chr 'h' then scanLength rest (flags ||| dataShrt)
      else if c = chr 'l' then
        scanLength rest (flags ||| if hasFlag flags dataLong then dataLlgn else dataLong)
      else (flags, c :: rest)

/-- The sanity check that drops conflicting flags. -/
def resolveFlags (flags internal : Word) : Word × Word :=
  let flags := if hasFlag flags hideSign ∧ hasFlag flags showSign
    then (flags &&& ~~~hideSign) &&& ~~~showSign else flags
  let internal := if hasFlag internal dataShrt ∧ (hasFlag internal dataLong ∨ hasFlag internal dataLlgn)
    then 0#32 else internal
  let flags := if hasFlag flags dispHexd ∧ hasFlag flags showSign
    then (flags &&& ~~~dispHexd) &&& ~~~showSign else flags
  (flags, internal)

/-- `va_arg(args, int32)`, and of the 32-bit `int64` and `uint64`: the word at the cursor `ap`. -/
def vaArg32 (args : Bytes) (ap : Nat) : Word × Nat := (args.read32 ap, ap + 4)

/-- `va_arg(args, int16)` or of `uint16`: two bytes, extended. -/
def vaArg16 (signed : Bool) (args : Bytes) (ap : Nat) : Word × Nat :=
  let h := args.read16 ap
  (if signed then h.signExtend 32 else h.zeroExtend 32, ap + 2)

/-- The argument of an integer conversion, of the size the length modifiers ask for. -/
def vaArgInt (signed : Bool) (internal : Word) (args : Bytes) (ap : Nat) : Word × Nat :=
  if hasFlag internal dataLlgn then vaArg32 args ap
  else if hasFlag internal dataShrt then vaArg16 signed args ap
  else vaArg32 args ap

/-- The width `%p` sets. -/
def pointerWidth (internal : Word) : Int :=
  if hasFlag internal dataLlgn then 8 else if hasFlag internal dataShrt then 4 else 8

/-- The format specifier stage: what conversion `c` puts out, and where it leaves the arguments. -/
def convert (c : Byte) (width : Int) (flags internal : Word) (args : Bytes) (ap : Nat) :
    Piece × Nat :=
  let integer (base : Int) (sign signed : Bool) (width : Int) (flags : Word) (convbase : Char) :=
    let (num, ap) := vaArgInt signed internal args ap
    (Piece.text (printi num base sign width flags (chr convbase)), ap)
  if c = chr 's' then
    let (ptr, ap) := vaArg32 args ap
    let flags := flags &&& leftJust
    (if ptr = 0#32 then .text (prints (cstr "(null)") width flags) else .string ptr width flags, ap)
  else if c = chr 'c' then
    let (w, ap) := vaArg32 args ap
    let buf := w.truncate 8
    (.text (prints (if buf = 0#8 then [] else [buf]) width (flags &&& leftJust)), ap)
  else if c = chr 'd' ∨ c = chr 'i' then integer 10 true true width flags 'a'
  else if c = chr 'u' then integer 10 false false width flags 'a'
  else if c = chr 'x' then integer 16 false false width flags 'a'
  else if c = chr 'p' then
    integer 16 false false (pointerWidth internal) (dispHexd ||| padwZero) 'A'
  else if c = chr 'X' then integer 16 false false width flags 'A'
  else (.text [c], ap)

/-- One directive, the cursor standing after its `%`. Gives the piece, the cursor at the conversion
byte, and the argument cursor. -/
def directive (fmt : List Byte) (args : Bytes) (ap : Nat) : Piece × List Byte × Nat :=
  let (flags, fmt) := scanFlags fmt 0#32
  let (width, fmt) := scanWidth fmt 0
  let (internal, fmt) := scanLength fmt 0#32
  let (flags, internal) := resolveFlags flags internal
  let (piece, ap) := convert (deref fmt) width flags internal args ap
  (piece, fmt, ap)

/-- The loop of `print`, for at most `fuel` turns. Each turn moves the cursor, so the length of the
format is fuel enough. -/
def printLoop (args : Bytes) : Nat → List Byte → Nat → Except Stop (List Piece)
  | 0, _, _ => .error .spin
  | _ + 1, [], _ => .ok []
  | fuel + 1, c :: fmt, ap =>
      if c ≠ chr '%' then (printLoop args fuel fmt ap).map (.text [c] :: ·)
      else if deref fmt = 0#8 then .ok []
      else if deref fmt = chr '%' then (printLoop args fuel fmt.tail ap).map (.text [chr '%'] :: ·)
      else
        match directive fmt args ap with
        | (_, [], _) => .error .overrun
        | (piece, _ :: fmt, ap) => (printLoop args fuel fmt ap).map (piece :: ·)

/-- `print`: the pieces a format puts out for the arguments that start at `args`. -/
def print (fmt : List Byte) (args : Bytes) : Except Stop (List Piece) :=
  printLoop args (fmt.length + 1) fmt 0

/-- The argument bytes of a call that passes the given 4-byte slots. -/
def slots (ws : List Word) : Bytes := fun k => byteAt (ws.getD (k / 4) 0#32) (k % 4)

/-! ## Printing -/

section Printing

variable {μ : Type} [Bus μ]

/-- The bytes of the C string at `p`, at most `fuel` of them. -/
def readString : Nat → Word → K μ (List Byte)
  | 0, _ => throw .spin
  | fuel + 1, p => do
      let c ← load8 p
      if c = 0#8 then pure [] else return c :: (← readString fuel (p + 1#32))

/-- Put one piece out on the screen. -/
def putPiece : Piece → K μ Unit
  | .text bs => bs.forM screenPut
  | .string ptr width flags => do
      let bs ← readString (2 ^ 32) ptr
      (prints bs width flags).forM screenPut

def kPrintf (fmt : List Byte) (args : Bytes) : K μ Unit :=
  match print fmt args with
  | .ok pieces => pieces.forM putPiece
  | .error e => throw e

def kPrintfln (fmt : List Byte) (args : Bytes) : K μ Unit := do
  kPrintf fmt args
  screenPut newline

end Printing

end LizaOS
