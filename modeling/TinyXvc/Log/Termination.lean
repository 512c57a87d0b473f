import TinyXvc.Log.Spec

/-!
# Termination of the logger

An error report of the resolution is a `FATAL` message with a fresh tag, and so
asks for the resolution of that tag first.  The report is printed when this
second resolution succeeds, and otherwise starts again.
-/

namespace TinyXvc

/-- The tag spec resolves the tag named `str`. -/
def Resolves (tagSpec str : CString) : Prop :=
  (tagSpecParts tagSpec).2 = [] ∧ ∃ p ∈ (tagSpecParts tagSpec).1, PrefixNamed str p.1

instance (tagSpec str : CString) : Decidable (Resolves tagSpec str) :=
  inferInstanceAs (Decidable (_ ∧ _))

theorem resolves_iff (tagSpec str : CString) :
    Resolves tagSpec str ↔ (tagSpecParts tagSpec).2 = [] ∧
      ∃ enabled, tagVerdict str (tagSpecParts tagSpec).1 = some enabled := by
  rw [Resolves, ← Option.ne_none_iff_exists', ne_eq, tagVerdict,
    Marked.lastVerdict_eq_none]
  simp

/-- The error report is printed. -/
def Logger.Reports (s : Logger) (tagSpec : CString) : Prop :=
  s.gCurConfigId = 0 ∨ Resolves tagSpec loggerTag.str

/-- The call ended by itself: it returned, or it aborted after a `FATAL`
message. -/
def Ended (r : Except (LogStop × Logger) (LogTag × Logger)) : Prop :=
  match r with
  | .ok _ => True
  | .error (stop, t) =>
      stop = .aborted ∧ ∃ before msg, t.printed = before ++ [msg] ∧ msg.level = .fatal

theorem not_ended_outOfFuel (s : Logger) : ¬Ended (.error (.outOfFuel, s)) := by
  rintro ⟨hstop, -⟩
  cases hstop

/-- What follows a resolution in `txvc_log`. -/
def printOn (tag : LogTag) (enabled : Bool) (level : LogLevel) (fmt : String)
    (args : List CString) (s : Logger) : Except (LogStop × Logger) (LogTag × Logger) :=
  if enabled ∨ level = .fatal then
    let t := { s with printed := s.printed ++ [⟨s.gWithTimestamps, tag.str, level, fmt, args⟩] }
    if level = .fatal then .error (.aborted, t) else .ok (tag, t)
  else .ok (tag, s)

theorem ended_printOn (tag : LogTag) (enabled : Bool) (level : LogLevel) (fmt : String)
    (args : List CString) (s : Logger) : Ended (printOn tag enabled level fmt args s) := by
  unfold printOn
  split
  · dsimp only
    split
    · rename_i hfatal
      exact ⟨rfl, s.printed, _, rfl, hfatal⟩
    · trivial
  · trivial

theorem txvcLog_of_level {level : LogLevel} {s : Logger} (h : txvcLogLevelEnabled s level = true)
    (fuel : ℕ) (tag : LogTag) (fmt : String) (args : List CString) :
    txvcLog (fuel + 1) tag level fmt args s =
      match tagEnabledVia (txvcLog fuel) tag s with
      | .ok ((enabled, tag), t) => printOn tag enabled level fmt args t
      | .error e => .error e := by
  rw [txvcLog, Exec.get_bind, if_pos h]
  cases hcall : tagEnabledVia (txvcLog fuel) tag s with
  | error e => rw [Exec.bind_error hcall]
  | ok p =>
      obtain ⟨⟨enabled, tag'⟩, t⟩ := p
      rw [Exec.bind_ok hcall]
      dsimp only
      unfold printOn
      split
      · split
        · rfl
        · rfl
      · rfl

/-- A resolution that fails ends the way its report does. -/
theorem tagEnabledVia_report {tag : LogTag} {s : Logger} {tagSpec : CString} {fuel : ℕ}
    (stop : String → List CString → LogStop × Logger) (hspec : s.gTagSpec = some tagSpec)
    (h : ¬s.Resolved tag)
    (hopen : ¬Resolves tagSpec tag.str)
    (hreport : ∀ fmt args, txvcLog fuel loggerTag .fatal fmt args s = .error (stop fmt args)) :
    ∃ fmt args, tagEnabledVia (txvcLog fuel) tag s = .error (stop fmt args) := by
  have huncached : ¬(tag.curConfigId = s.gCurConfigId ∧ tag.isEnabled ≠ .logTagEnabled) := h
  rw [resolves_iff] at hopen
  rw [tagEnabledVia, Exec.get_bind, if_neg huncached, hspec]
  simp only [scanTagSpec_eq, Option.or_none, reportTagSpec]
  by_cases hrest : (tagSpecParts tagSpec).2 = []
  · have hnone : tagVerdict tag.str (tagSpecParts tagSpec).1 = none := by
      by_contra hsome
      exact hopen ⟨hrest, Option.ne_none_iff_exists'.mp hsome⟩
    refine ⟨"Tag spec \"%s\" does not define resolution for tag \"%s\"\n", [tagSpec, tag.str], ?_⟩
    rw [if_neg (not_not.mpr hrest), pure_bind, if_pos hnone, bind_assoc,
      Exec.bind_error (hreport _ _)]
  · refine ⟨"Tag spec \"%s\" has no resolution at the end\n", [tagSpec], ?_⟩
    rw [if_pos hrest, bind_assoc, bind_assoc, Exec.bind_error (hreport _ _)]

theorem loggerTag_resolved_iff (s : Logger) : s.Resolved loggerTag ↔ s.gCurConfigId = 0 := by
  constructor
  · intro h
    exact h.1.symm
  · intro h
    exact ⟨h.symm, by decide⟩

/-- A report that can be printed ends the process. -/
theorem txvcLog_report {s : Logger} {tagSpec : CString} (hspec : s.gTagSpec = some tagSpec)
    (h : s.Reports tagSpec) (fuel : ℕ) (fmt : String) (args : List CString) :
    txvcLog (fuel + 1) loggerTag .fatal fmt args s =
      .error (.aborted, { s with
        printed := s.printed ++ [⟨s.gWithTimestamps, loggerTag.str, .fatal, fmt, args⟩] }) := by
  rw [txvcLog_of_level (levelEnabled_fatal s)]
  by_cases hcached : s.Resolved loggerTag
  · rw [tagEnabledVia_resolved _ hcached]
    simp [printOn]
  · have hresolves : Resolves tagSpec loggerTag.str :=
      h.resolve_left (mt (loggerTag_resolved_iff s).mpr hcached)
    obtain ⟨hrest, enabled, hverdict⟩ := (resolves_iff _ _).mp hresolves
    rw [tagEnabledVia_verdict _ hspec hcached hrest hverdict]
    simp [printOn, LogTag.resolve]

/-- A report that can not be printed never ends. -/
theorem txvcLog_report_endless {s : Logger} {tagSpec : CString}
    (hspec : s.gTagSpec = some tagSpec) (h : ¬s.Reports tagSpec) (fuel : ℕ) (fmt : String)
    (args : List CString) :
    txvcLog fuel loggerTag .fatal fmt args s = .error (.outOfFuel, s) := by
  obtain ⟨hid, hopen⟩ := not_or.mp h
  -- each report consults the tag spec about the fresh tag, and so needs another report
  induction fuel generalizing fmt args with
  | zero => rfl
  | succ fuel ih =>
      rw [txvcLog_of_level (levelEnabled_fatal s)]
      have huncached : ¬s.Resolved loggerTag := mt (loggerTag_resolved_iff s).mp hid
      obtain ⟨fmt', args', hrun⟩ :=
        tagEnabledVia_report (fun _ _ => (.outOfFuel, s)) hspec huncached hopen ih
      rw [hrun]

/-- When a call of `txvc_log` ends: the message is below the minimal level, or
the tag is resolved already, or the tag spec resolves it, or the report that it
does not is printed. -/
theorem ended_iff {s : Logger} {tagSpec : CString} (hspec : s.gTagSpec = some tagSpec)
    (tag : LogTag) (level : LogLevel) (fmt : String) (args : List CString) :
    (∃ fuel, Ended (txvcLog fuel tag level fmt args s)) ↔
      txvcLogLevelEnabled s level = false ∨ s.Resolved tag ∨ Resolves tagSpec tag.str ∨
        s.Reports tagSpec := by
  by_cases hoff : txvcLogLevelEnabled s level = false
  · refine iff_of_true ⟨1, ?_⟩ (.inl hoff)
    rw [txvcLog, Exec.get_bind, if_neg (by simp [hoff])]
    trivial
  have hon : txvcLogLevelEnabled s level = true := by simpa using hoff
  by_cases hcached : s.Resolved tag
  · refine iff_of_true ⟨1, ?_⟩ (.inr (.inl hcached))
    rw [txvcLog_of_level hon, tagEnabledVia_resolved _ hcached]
    exact ended_printOn ..
  by_cases hresolves : Resolves tagSpec tag.str
  · refine iff_of_true ⟨1, ?_⟩ (.inr (.inr (.inl hresolves)))
    obtain ⟨hrest, enabled, hverdict⟩ := (resolves_iff _ _).mp hresolves
    rw [txvcLog_of_level hon, tagEnabledVia_verdict _ hspec hcached hrest hverdict]
    exact ended_printOn ..
  by_cases hreports : s.Reports tagSpec
  · refine iff_of_true ⟨2, ?_⟩ (.inr (.inr (.inr hreports)))
    obtain ⟨fmt', args', hrun⟩ :=
      tagEnabledVia_report _ hspec hcached hresolves (txvcLog_report hspec hreports 0)
    rw [txvcLog_of_level hon, hrun]
    exact ⟨rfl, s.printed, _, rfl, rfl⟩
  · refine iff_of_false ?_ (by simp [hoff, hcached, hresolves, hreports])
    rintro ⟨fuel, hended⟩
    cases fuel with
    | zero => exact not_ended_outOfFuel s hended
    | succ fuel =>
        obtain ⟨fmt', args', hrun⟩ :=
          tagEnabledVia_report (fun _ _ => (.outOfFuel, s)) hspec hcached hresolves
            (txvcLog_report_endless hspec hreports fuel)
        rw [txvcLog_of_level hon, hrun] at hended
        exact not_ended_outOfFuel s hended

theorem txvc_log_ends_iff (s : Logger) (tagSpec : CString) (minLevel : LogLevel)
    (withTimestamps : Bool) (tag : LogTag) (level : LogLevel) (fmt : String)
    (args : List CString) :
    (∃ fuel, Ended (txvcLog fuel tag level fmt args
        (txvcLogConfigure tagSpec minLevel withTimestamps s))) ↔
      level.toNat < minLevel.toNat ∨
      (txvcLogConfigure tagSpec minLevel withTimestamps s).Resolved tag ∨
      Resolves tagSpec tag.str ∨ Resolves tagSpec loggerTag.str ∨ s.gCurConfigId + 1 = 0 := by
  have hlevel : txvcLogLevelEnabled (txvcLogConfigure tagSpec minLevel withTimestamps s) level
      = false ↔ level.toNat < minLevel.toNat := by
    rw [txvcLogLevelEnabled, decide_eq_false_iff_not, Nat.not_le]
    rfl
  have hreports : (txvcLogConfigure tagSpec minLevel withTimestamps s).Reports tagSpec ↔
      Resolves tagSpec loggerTag.str ∨ s.gCurConfigId + 1 = 0 := or_comm
  rw [ended_iff (s := txvcLogConfigure tagSpec minLevel withTimestamps s) rfl, hlevel, hreports]

/-- After the first configuration with the tag spec "txvc", which has no
resolution at its end, a message never ends. -/
theorem txvc_log_endless :
    ¬∃ fuel, Ended (txvcLog fuel (LogTag.initializer ['t', 'x', 'v', 'c']) .info "Terminating\n" []
      (txvcLogConfigure ['t', 'x', 'v', 'c'] .info false initialLogger)) := by
  have hends := ended_iff (s := txvcLogConfigure ['t', 'x', 'v', 'c'] .info false initialLogger)
    rfl (LogTag.initializer ['t', 'x', 'v', 'c']) .info "Terminating\n" []
  rw [hends, Logger.Reports]
  decide

end TinyXvc
