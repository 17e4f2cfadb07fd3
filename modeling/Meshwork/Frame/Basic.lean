import Meshwork.Address
import Meshwork.Text.Blank

/-!
# Frames

A frame is one message between modules: the handle that sent it, the module of the receiving node
that gets it, a type and a payload. On the wire it is six header bytes and the payload.
-/

namespace Meshwork

structure Frame where
  source : Handle
  dest : UInt8
  kind : UInt8
  payload : List UInt8
deriving DecidableEq, Repr

namespace Frame

def ofText (source : Handle) (dest : UInt8) (text : String) : Frame :=
  { source, dest, kind := textKind, payload := Text.utf8 text }

def headerSize : Nat := 6

def size (f : Frame) : Nat := headerSize + f.payload.length

def lowByte (n : Nat) : UInt8 := UInt8.ofNat n

def highByte (n : Nat) : UInt8 := UInt8.ofNat (n / 256)

def joinBytes (low high : UInt8) : Nat := low.toNat + 256 * high.toNat

/-- The wire form. The declared length counts the payload and the four bytes after the length
itself, and all 16-bit fields have their lower byte first: the module before the node, the receiver
before the type. -/
def bytes (f : Frame) : List UInt8 :=
  let declared := f.payload.length + 4
  lowByte declared :: highByte declared :: f.source.moduleId :: f.source.node.val :: f.dest ::
    f.kind :: f.payload

theorem length_bytes (f : Frame) : f.bytes.length = f.size := by
  simp only [bytes, size, headerSize, List.length_cons]
  omega

theorem joinBytes_lowByte_highByte {n : Nat} (h : n < 65536) :
    joinBytes (lowByte n) (highByte n) = n := by
  simp only [joinBytes, lowByte, highByte, UInt8.toNat_ofNat']
  omega

theorem lowByte_joinBytes (low high : UInt8) : lowByte (joinBytes low high) = low := by
  apply UInt8.toNat_inj.1
  have h := low.toNat_lt
  simp only [joinBytes, lowByte, UInt8.toNat_ofNat']
  omega

theorem highByte_joinBytes (low high : UInt8) : highByte (joinBytes low high) = high := by
  apply UInt8.toNat_inj.1
  have h₁ := low.toNat_lt
  have h₂ := high.toNat_lt
  simp only [joinBytes, highByte, UInt8.toNat_ofNat']
  omega

end Frame

end Meshwork
