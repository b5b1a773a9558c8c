import Freekick.Lib.Little
import Mathlib.Logic.Function.Basic

/-!
# Words in a byte memory

A word is stored in consecutive bytes, least significant byte first.  What is stored in
one range of addresses is not seen in another one.
-/

namespace Freekick.Lib.Memory

open Little

abbrev Mem := Nat → UInt8

def loadBytes (mem : Mem) : Nat → Nat → List UInt8
  | _, 0 => []
  | addr, width + 1 => mem addr :: loadBytes mem (addr + 1) width

def storeBytes (mem : Mem) : Nat → List UInt8 → Mem
  | _, [] => mem
  | addr, byte :: rest => storeBytes (Function.update mem addr byte) (addr + 1) rest

def loadWord (mem : Mem) (addr width : Nat) : Nat := decode (loadBytes mem addr width)

/-- A number that is too large loses its upper part. -/
def storeWord (mem : Mem) (addr width number : Nat) : Mem :=
  storeBytes mem addr (encode width number)

variable {mem changed : Mem} {addr other width : Nat} {bytes : List UInt8}

theorem storeBytes_outside (outside : other < addr ∨ addr + bytes.length ≤ other) :
    storeBytes mem addr bytes other = mem other := by
  induction bytes generalizing mem addr with
  | nil => rfl
  | cons byte rest ih =>
      rw [List.length_cons] at outside
      rw [storeBytes, ih (by omega)]
      exact Function.update_of_ne (by omega) ..

theorem loadBytes_congr (same : ∀ other, addr ≤ other → other < addr + width →
    changed other = mem other) :
    loadBytes changed addr width = loadBytes mem addr width := by
  induction width generalizing addr with
  | zero => rfl
  | succ width ih =>
      rw [loadBytes, loadBytes, same addr (Nat.le_refl _) (by omega), ih fun other least most =>
        same other (by omega) (by omega)]

theorem loadBytes_storeBytes : loadBytes (storeBytes mem addr bytes) addr bytes.length = bytes := by
  induction bytes generalizing mem addr with
  | nil => rfl
  | cons byte rest ih =>
      rw [storeBytes, List.length_cons, loadBytes, ih,
        storeBytes_outside (.inl (Nat.lt_succ_self addr)), Function.update_self]

theorem loadWord_congr (same : ∀ other, addr ≤ other → other < addr + width →
    changed other = mem other) :
    loadWord changed addr width = loadWord mem addr width :=
  congrArg decode (loadBytes_congr same)

theorem loadWord_storeWord {number : Nat} (fits : number < 256 ^ width) :
    loadWord (storeWord mem addr width number) addr width = number := by
  have read : loadBytes (storeWord mem addr width number) addr width = encode width number := by
    have stored := @loadBytes_storeBytes mem addr (encode width number)
    rwa [length_encode] at stored
  rw [loadWord, read, decode_encode fits]

theorem storeWord_outside {number : Nat} (outside : other < addr ∨ addr + width ≤ other) :
    storeWord mem addr width number other = mem other :=
  storeBytes_outside (by rwa [length_encode])

/-- Words that do not overlap. -/
theorem loadWord_storeWord_apart {number size : Nat}
    (apart : addr + width ≤ other ∨ other + size ≤ addr) :
    loadWord (storeWord mem addr width number) other size = loadWord mem other size :=
  loadWord_congr fun _ least most => storeWord_outside (by omega)

end Freekick.Lib.Memory
