/-
# Deflate and zlib

`core/zlib.hpp`: compression by the vendored library, whose functions come in as
parameters.  What is inflated is cut off at a cap, since it comes from untrusted input.
-/
import Dwarfkit.Core.Result

namespace Dwarfkit

/-- `maxInflateOutput`. -/
def maxInflateOutput : ℕ := 16 * 1024 * 1024

/-- `deflateRaw` and `inflateRaw` of `core/zlib.hpp`. -/
structure Zlib where
  deflateRaw : Bytes → Result Bytes
  inflateRaw : Bytes → Result Bytes

/-- Below the cap, inflating gives back what was deflated. -/
def Zlib.Inverse (z : Zlib) : Prop :=
  ∀ array deflated, array.length < maxInflateOutput → z.deflateRaw array = .ok deflated →
    z.inflateRaw deflated = .ok array

/-- What is inflated, if it is, is what was deflated. -/
def Zlib.Faithful (z : Zlib) : Prop :=
  ∀ array deflated inflated, z.deflateRaw array = .ok deflated →
    z.inflateRaw deflated = .ok inflated → inflated = array

/-- `zlibCompress` and `zlibUncompress`. -/
structure ZlibFormat where
  zlibCompress : Bytes → Result Bytes
  zlibUncompress : Bytes → Result Bytes

/-- Everything can be compressed, within the cap it is read back, and nothing above the
cap is ever read. -/
structure ZlibFormat.Lawful (z : ZlibFormat) : Prop where
  compresses : ∀ data, ∃ compressed, z.zlibCompress data = .ok compressed
  undoes : ∀ data compressed, data.length ≤ maxInflateOutput →
    z.zlibCompress data = .ok compressed → z.zlibUncompress compressed = .ok data
  capped : ∀ data compressed, z.zlibUncompress compressed = .ok data →
    data.length ≤ maxInflateOutput

end Dwarfkit
