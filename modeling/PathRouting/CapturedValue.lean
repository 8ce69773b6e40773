import PathRouting.Notice
import PathRouting.Text.Percent

/-!
# Captured values

The value of a parameter is the captured text with its percent escapes replaced. That is
all or nothing: if the bytes are not UTF-8 afterwards, the value is the captured text
itself. A plus sign is never a space, since a path is not a query.

## Main definitions

* `CapturedValue` — a value, whether it is the raw text, and what was reported
* `CapturedValue.decode` — the value of a raw text
* `CapturedValue.decodeFlagged` — the same, for a text already searched for a percent sign
-/

namespace PathRouting

open Text

/-- The value of a captured text. -/
structure CapturedValue where
  /-- The value. -/
  text : String
  /-- Whether the value is the captured text itself. -/
  isRaw : Bool
  /-- What was reported. -/
  notices : List Notice

namespace CapturedValue

/-- The value of a text that is known to have a percent sign or to have none. -/
def decodeFlagged (raw : String) (hasPercent : Bool) : CapturedValue :=
  if hasPercent then
    let bytes := Utf8.encode raw.toList
    let plain := Percent.unescape bytes
    -- An escape shortens the bytes, so equal bytes hold none.
    if plain = bytes then ⟨raw, true, []⟩
    else
      match Utf8.decode plain with
      | .ok text => ⟨String.ofList text, false, []⟩
      | .error fault => ⟨raw, true, [.keptRaw raw fault]⟩
  else ⟨raw, true, []⟩

/-- The value of a captured text. -/
def decode (raw : String) : CapturedValue :=
  decodeFlagged raw (raw.toList.contains '%')

end CapturedValue

end PathRouting
