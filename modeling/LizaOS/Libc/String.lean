-- SUMMARY: The kernel's string and memory functions.
import LizaOS.Kernel.State

/-!
# Strings

`libc/string.c`. A string loop ends at a NUL or not at all, so each takes the number of turns the
address space allows and is `Stop.spin` after that. A source operand is a pointer or a string
literal. An operand may name the object it is meant to stay inside.
-/

namespace LizaOS

/-- What a `const char *` argument points to. -/
inductive Src where
  | mem (a : Word) (obj : Option Extent)
  | lit (s : List Byte)

/-- The turns of a loop over the whole address space. -/
def spinLimit : Nat := 2 ^ 32

variable {μ : Type} [Bus μ]

/-- The byte `src[i]`. Behind the NUL of a literal is memory the compiler laid out. -/
def Src.get (src : Src) (i : Nat) : K μ Byte :=
  match src with
  | .mem a obj => load8 (a + BitVec.ofNat 32 i) obj
  | .lit s => if i ≤ s.length then pure (s.getD i 0#8) else throw .overrun

/-- One turn of the loop of `memcpy`. -/
def memcpyByte (dst src : Word) (obj : Option Extent) (i : Nat) : K μ Unit := do
  let b ← load8 (src + BitVec.ofNat 32 i) obj
  store8 (dst + BitVec.ofNat 32 i) b

def memcpy (dst src : Word) (size : Nat) (obj : Option Extent := none) : K μ Unit :=
  Exec.forUp (memcpyByte dst src obj) 0 size

/-- The loop of `memmove` that copies upwards. -/
def memmoveUp (dst src n : Word) : Nat → Word → K μ Unit
  | 0, _ => throw .spin
  | fuel + 1, i =>
      if i < n then do
        let b ← load8 (src + i)
        store8 (dst + i) b
        memmoveUp dst src n fuel (i + 1#32)
      else pure ()

/-- The loop that copies downwards. `ssize_t` is unsigned, and the test sees `i` before it is
decremented. -/
def memmoveDown (dst src : Word) : Nat → Word → K μ Unit
  | 0, _ => throw .spin
  | fuel + 1, i =>
      if i > 0#32 then do
        let i := i - 1#32
        let b ← load8 (src + i)
        store8 (dst + i) b
        memmoveDown dst src fuel i
      else pure ()

def memmove (dst src n : Word) : K μ Word := do
  if dst < src then memmoveUp dst src n spinLimit 0#32 else memmoveDown dst src spinLimit n
  pure dst

def memset (dst : Word) (c : Byte) (n : Nat) : K μ Unit :=
  Exec.forUp (fun i => store8 (dst + BitVec.ofNat 32 i) c) 0 n

/-- The loop of `strcpy`. It tests the byte behind the one it has copied: the first byte is copied
even when it is NUL, and the terminating NUL is not copied. -/
def strcpyFrom (dest : Word) (src : Src) (obj : Option Extent) : Nat → Nat → K μ Unit
  | 0, _ => throw .spin
  | fuel + 1, i => do
      let b ← src.get i
      store8 (dest + BitVec.ofNat 32 i) b obj
      if (← src.get (i + 1)) = 0#8 then pure () else strcpyFrom dest src obj fuel (i + 1)

def strcpy (dest : Word) (src : Src) (obj : Option Extent := none) : K μ Unit :=
  strcpyFrom dest src obj spinLimit 0

def strlenFrom (src : Src) : Nat → Nat → K μ Nat
  | 0, _ => throw .spin
  | fuel + 1, i => do if (← src.get i) = 0#8 then pure i else strlenFrom src fuel (i + 1)

def strlen (src : Src) : K μ Nat := strlenFrom src spinLimit 0

/-- The loop of `strcmp` and the tests behind it. The result says whether the strings differ: the
source leaves `failed` at 1. -/
def strcmpFrom (str1 str2 : Src) : Nat → Nat → K μ Bool
  | 0, _ => throw .spin
  | fuel + 1, i => do
      let c₁ ← str1.get i
      let c₂ ← str2.get i
      if c₁ ≠ 0#8 ∧ c₂ ≠ 0#8 then
        if c₁ ≠ c₂ then pure true else strcmpFrom str1 str2 fuel (i + 1)
      else pure ((c₁ = 0#8 ∧ c₂ ≠ 0#8) ∨ (c₁ ≠ 0#8 ∧ c₂ = 0#8))

def strcmp (str1 str2 : Src) : K μ Bool := strcmpFrom str1 str2 spinLimit 0

end LizaOS
