import PathRouting.Text.Quoted
import PathRouting.Text.Utf8

/-!
# Notices

What registering, compiling and looking up report beside their result. A notice says which
pattern or text it is about; its wording quotes that text, so that it fills one line.

## Main definitions

* `Notice` — what can be reported
* `Notice.level`, `Notice.message` — its weight and its wording
-/

namespace PathRouting

open Text

/-- The weight of a notice. -/
inductive Level where
  /-- An ordinary step. -/
  | trace
  /-- A summary. -/
  | debug
  /-- A step that loses something. -/
  | warn
deriving DecidableEq

/-- What is reported beside a result. -/
inductive Notice where
  /-- A pattern was registered. -/
  | inserted (pattern : String)
  /-- A pattern was registered before, and its payload is replaced. -/
  | overwritten (pattern : String)
  /-- A pattern has segments after its catch-all, which are left out. -/
  | truncated (pattern : String)
  /-- So many patterns were compiled into a matcher of that depth. -/
  | compiled (size depth : Nat)
  /-- The escapes of a captured text do not stand for UTF-8, so it is kept as it is. -/
  | keptRaw (raw : String) (fault : Utf8.Fault)
deriving DecidableEq

namespace Notice

/-- The weight of a notice. -/
def level : Notice → Level
  | inserted _ => .trace
  | overwritten _ => .warn
  | truncated _ => .warn
  | compiled _ _ => .debug
  | keptRaw _ _ => .trace

/-- The wording of a notice. -/
def message : Notice → String
  | inserted pattern => "insert a pattern: " ++ quote pattern
  | overwritten pattern => "the payload of " ++ quote pattern ++ " is overwritten"
  | truncated pattern =>
    "the segments after the catch-all parameter are ignored: " ++ quote pattern
  | compiled size depth =>
    "compiled " ++ toString size ++ " pattern(s) into a matcher (depth = " ++ toString depth ++ ")"
  | keptRaw raw fault => "keep the raw value " ++ quote raw ++ ": " ++ fault.message

end Notice

end PathRouting
