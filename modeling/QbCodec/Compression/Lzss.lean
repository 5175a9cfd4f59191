import QbCodec.Failure

/-!
Decompression of script bodies. A flag byte, lowest bit first, tells for each of the next eight
entries whether it is a literal byte or a reference into a ring of the last 4096 bytes: twelve bits
of position and four of length, which counts from three.
-/

namespace QbCodec.Lzss

structure Window where
  ring : Vector UInt8 4096
  next : Fin 4096
  produced : List UInt8
  count : Nat

namespace Window

def start : Window := ⟨Vector.replicate 4096 0, 4078, [], 0⟩

def put (w : Window) (b : UInt8) : Window :=
  ⟨w.ring.set w.next b, w.next + 1, b :: w.produced, w.count + 1⟩

/-- Copies byte by byte, so that a reference may reach into what it produces itself. -/
def copy (w : Window) (position : Fin 4096) : Nat → Window
  | 0 => w
  | n + 1 => (w.put w.ring[position]).copy (position + 1) n

end Window

def referencePosition (low high : UInt8) : Fin 4096 :=
  Fin.ofNat 4096 (low.toNat + 256 * (high.toNat / 16))

def referenceLength (high : UInt8) : Nat := high.toNat % 16 + 3

def run (wanted : Nat) (w : Window) (left : Nat) (flags : Nat) : List UInt8 → Window
  | [] => w
  | b :: rest =>
    if wanted ≤ w.count then w
    else match left with
      | 0 => run wanted w 8 b.toNat rest
      | left + 1 =>
        if flags % 2 = 1 then run wanted (w.put b) left (flags / 2) rest
        else match rest with
          | [] => w
          | high :: rest =>
            run wanted (w.copy (referencePosition b high) (referenceLength high)) left (flags / 2)
              rest

def decompress (data : List UInt8) (wanted : Nat) : Except Failure (List UInt8) :=
  let w := run wanted Window.start 0 0 data
  if w.count < wanted then
    .error (.decompression s!"LZSS stream ended early: produced {w.count} of {wanted} bytes")
  else .ok (w.produced.reverse.take wanted)

/-- Room for all that is wanted is made first, and a row of bytes has room for fewer than `2 ^ 63` of
them. Nothing if the program stops there. -/
def decompress? (data : List UInt8) (wanted : Nat) : Option (Except Failure (List UInt8)) :=
  if wanted < 2 ^ 63 then some (decompress data wanted) else none

end QbCodec.Lzss
