import QbCodec.Compression.Lzss
import QbCodec.File.Compiled
import QbCodec.File.Readable

/-!
Conversions: an input with the options under which it is compiled or decompiled, and what came of
it. Conversions share one registry. One that has failed stays failed and does not run again.
-/

namespace QbCodec

structure Options where
  game : Game := .ghwt
  debug : Bool := false
  write : Bool := true

structure Conversion (α β : Type) where
  fileName : String
  input : α
  options : Options
  output : Option β := none
  abortReason : Option String := none

def Lzss.expander : Expander := fun e => Lzss.decompress e.stored e.size

theorem Lzss.decompress?_of_expansion? {i : Item} {e : Expansion} (h : i.expansion? = some e) :
    Lzss.decompress? e.stored e.size = some (Lzss.expander e) := by
  cases i with
  | script s =>
    simp only [Item.expansion?] at h
    split at h
    · cases h
    · cases h
      exact if_pos (Nat.lt_trans s.fullSize.toNat_lt (by decide))
  | integer | pointer => cases h

namespace Conversion

variable {α β : Type}

def failed (c : Conversion α β) : Bool := c.abortReason.isSome

def defaultReason : String := "Job failed with no provided reason."

def fail (c : Conversion α β) (reason : String) : Conversion α β :=
  { c with abortReason := some (if reason = "" then defaultReason else reason) }

def record (c : Conversion α β) : Except Failure β → Conversion α β
  | .ok output => { c with output := some output }
  | .error e => c.fail e.message

def runWith (work : Registry → Except Failure β × Registry) (c : Conversion α β) (r : Registry) :
    Except Failure β × Conversion α β × Registry :=
  match c.abortReason with
  | some reason => (.error (.aborted reason), c, r)
  | none =>
    let (result, r) := work r
    (result, c.record result, r)

end Conversion

abbrev Compilation := Conversion String (List UInt8)

namespace Compilation

/-- Files are compiled for the games that allow it, in big order. -/
def work (c : Compilation) (r : Registry) : Except Failure (List UInt8) × Registry :=
  let game := c.options.game
  if game.canCompile then
    Compiled.ofSource { container := Key.ofName c.fileName, game } c.input r
  else (.error (.compile s!"compiling for {game.name} is not supported"), r)

def run (c : Compilation) (r : Registry) : Except Failure (List UInt8) × Compilation × Registry :=
  Conversion.runWith (work c) c r

end Compilation

abbrev Decompilation := Conversion (Format × List UInt8) String

namespace Decompilation

def work (c : Decompilation) (r : Registry) : Except Failure String :=
  Readable.ofBytes r c.input.1 Lzss.expander c.input.2

def run (c : Decompilation) (r : Registry) : Except Failure String × Decompilation × Registry :=
  Conversion.runWith (fun r => (work c r, r)) c r

end Decompilation

end QbCodec
