import TinyXvc.Defs
import TinyXvc.Lib.Marked

/-!
# The logger

`log.c`.  A pointer into a string is the suffix that it points to.  `txvc_log`
and `txvc_log_tag_enabled` call each other, so both get fuel.
-/

namespace TinyXvc

/-- `strpbrk`: the suffix at the first character that is in `accept`. -/
def strpbrk (s accept : CString) : Option CString :=
  match s.dropWhile fun c => !accept.contains c with
  | [] => none
  | suffix => some suffix

/-- The comparison that `strncmp` reports by the sign of its result. -/
def strncmp : CString → CString → ℕ → Ordering
  | _, _, 0 => .eq
  | [], [], _ + 1 => .eq
  | [], _ :: _, _ + 1 => .lt
  | _ :: _, [], _ + 1 => .gt
  | a :: as, b :: bs, n + 1 => (compare a b).then (strncmp as bs n)

inductive LogLevel where
  | verbose
  | info
  | warn
  | error
  | fatal
  deriving DecidableEq, Repr

/-- The value of the enumerator. -/
def LogLevel.toNat : LogLevel → ℕ
  | .verbose => 0
  | .info => 1
  | .warn => 2
  | .error => 3
  | .fatal => 4

/-- What `isEnabled` of a tag points to. -/
inductive TagChecker where
  | tagEnabled
  | tagDisabled
  | logTagEnabled
  deriving DecidableEq, Repr

structure LogTag where
  str : CString
  isEnabled : TagChecker
  curConfigId : UInt32
  deriving DecidableEq, Repr

/-- `TXVC_LOG_TAG_INITIALIZER`. -/
def LogTag.initializer (str : CString) : LogTag := ⟨str, .logTagEnabled, 0⟩

/-- A printed message: what it is formatted from. -/
structure LogMessage where
  timestamped : Bool
  str : CString
  level : LogLevel
  fmt : String
  args : List CString
  deriving DecidableEq, Repr

/-- The globals of the logger and what it has printed. -/
structure Logger where
  gMinLevel : LogLevel
  gTagSpec : Option CString
  gCurConfigId : UInt32
  gWithTimestamps : Bool
  printed : List LogMessage
  deriving DecidableEq, Repr

/-- How a call of the logger ends when it does not return. -/
inductive LogStop where
  /-- `abort`, after a `FATAL` message. -/
  | aborted
  /-- A scan through `NULL`: there is no configuration yet. -/
  | nullPointer
  | outOfFuel
  deriving DecidableEq, Repr

abbrev LogProg (α : Type) := Exec LogStop Logger α

def txvcLogConfigure (tagSpec : CString) (minLevel : LogLevel) (withTimestamps : Bool)
    (s : Logger) : Logger :=
  { s with
    gTagSpec := some tagSpec
    gMinLevel := minLevel
    gCurConfigId := s.gCurConfigId + 1
    gWithTimestamps := withTimestamps }

def txvcLogLevelEnabled (s : Logger) (level : LogLevel) : Bool :=
  s.gMinLevel.toNat ≤ level.toNat

/-- The characters that end a name in a tag spec. -/
def resolutionMarks : CString := ['+', '-']

def allTags : CString := ['a', 'l', 'l']

theorem strpbrk_length {s accept t : CString} (h : strpbrk s accept = some t) :
    0 < t.length ∧ t.length ≤ s.length := by
  unfold strpbrk at h
  have hle := (List.dropWhile_suffix (l := s) fun c => !accept.contains c).length_le
  split at h
  · cases h
  · rename_i hne
    cases h
    exact ⟨List.length_pos_of_ne_nil hne, hle⟩

/-- The scan of the tag spec for the tag named `str`: what it finds, and `name`
when it stops. -/
def scanTagSpec (str name : CString) (enabled : Option Bool) : Option Bool × CString :=
  match _found : strpbrk name resolutionMarks with
  | none => (enabled, name)
  | some nameResolution =>
      let nameLen := name.length - nameResolution.length
      let matched := decide (nameLen > 0)
        && (strncmp str name nameLen == .eq || strncmp allTags name nameLen == .eq)
      scanTagSpec str (nameResolution.drop 1)
        (if matched then some (nameResolution.head? == some '+') else enabled)
termination_by name.length
decreasing_by
  have := strpbrk_length _found
  simp only [List.length_drop]
  omega

/-- The temporary tag of the error reports. -/
def loggerTag : LogTag where
  str := ['l', 'o', 'g', 'g', 'e', 'r']
  isEnabled := .tagEnabled
  curConfigId := 0

/-- A call of `txvc_log`; it returns the tag as it leaves it. -/
abbrev LogCall := LogTag → LogLevel → String → List CString → LogProg LogTag

/-- The error reports of `txvc_log_tag_enabled` after its scan. -/
def reportTagSpec (txvcLog : LogCall) (tag : LogTag) (gTagSpec : CString) (enabled : Option Bool)
    (name : CString) : LogProg Unit := do
  (if name ≠ [] then do
    let _ ← txvcLog loggerTag .fatal "Tag spec \"%s\" has no resolution at the end\n" [gTagSpec]
    pure ()
  else pure ())
  if enabled = none then do
    let _ ← txvcLog loggerTag .fatal
      "Tag spec \"%s\" does not define resolution for tag \"%s\"\n" [gTagSpec, tag.str]
    pure ()
  else pure ()

/-- `txvc_log_tag_enabled` over the `txvc_log` it reports errors with.  The tag
is returned as the call leaves it. -/
def tagEnabledVia (txvcLog : LogCall) (tag : LogTag) : LogProg (Bool × LogTag) := do
  let s ← get
  if tag.curConfigId = s.gCurConfigId ∧ tag.isEnabled ≠ .logTagEnabled then
    pure (tag.isEnabled == .tagEnabled, tag)
  else
    match s.gTagSpec with
    | none => Exec.abort .nullPointer
    | some gTagSpec => do
        let scan := scanTagSpec tag.str gTagSpec none
        reportTagSpec txvcLog tag gTagSpec scan.1 scan.2
        -- the `-1` of an undefined resolution counts as true
        let enabled := scan.1.getD true
        pure (enabled, { tag with
          curConfigId := s.gCurConfigId
          isEnabled := if enabled then .tagEnabled else .tagDisabled })

def txvcLog : ℕ → LogCall
  | 0, _, _, _, _ => Exec.abort .outOfFuel
  | fuel + 1, tag, level, fmt, args => do
      let s ← get
      if txvcLogLevelEnabled s level then
        let (enabled, tag) ← tagEnabledVia (txvcLog fuel) tag
        if enabled ∨ level = .fatal then
          modify fun s =>
            { s with printed := s.printed ++ [⟨s.gWithTimestamps, tag.str, level, fmt, args⟩] }
          if level = .fatal then Exec.abort .aborted
          else pure tag
        else pure tag
      else pure tag

def txvcLogTagEnabled (fuel : ℕ) : LogTag → LogProg (Bool × LogTag) := tagEnabledVia (txvcLog fuel)

end TinyXvc
