import Mathlib.Data.List.TakeWhile
import TinyXvc.Log

/-!
# Resolution of a tag by a tag spec

A tag spec is a text of names, each ended by its resolution.  The scan answers
by the last name that is a nonempty prefix of the tag's name or of "all"; the
documentation speaks of the last name that is one of these two.
-/

namespace TinyXvc

open Marked

def isResolution (c : Char) : Bool := resolutionMarks.contains c

/-- The names of a tag spec, each with its resolution, and what follows them. -/
def tagSpecParts (tagSpec : CString) : List (CString × Char) × CString := cut isResolution tagSpec

/-- The names that the scan accepts for the tag named `str`. -/
def PrefixNamed (str name : CString) : Prop := name ≠ [] ∧ (name <+: str ∨ name <+: allTags)

instance (str name : CString) : Decidable (PrefixNamed str name) :=
  inferInstanceAs (Decidable (_ ∧ _))

/-- The names that speak of the tag named `str` by the documentation. -/
def ExactNamed (str name : CString) : Prop := name = str ∨ name = allTags

instance (str name : CString) : Decidable (ExactNamed str name) :=
  inferInstanceAs (Decidable (_ ∨ _))

/-- What the names of a tag spec resolve the tag named `str` to. -/
def tagVerdict (str : CString) (parts : List (CString × Char)) : Option Bool :=
  lastVerdict (fun p => decide (PrefixNamed str p.1)) (fun p => p.2 == '+') parts

theorem strncmp_eq_iff (a b : CString) (n : ℕ) :
    strncmp a b n = .eq ↔ a.take n = b.take n := by
  induction n generalizing a b with
  | zero => simp [strncmp]
  | succ n ih =>
      cases a with
      | nil => cases b <;> simp [strncmp]
      | cons c cs =>
          cases b with
          | nil => simp [strncmp]
          | cons d ds => simp [strncmp, ih, Ordering.then_eq_eq]

/-- The comparison of the scan asks whether the name is a prefix. -/
theorem strncmp_name_iff (str piece rest : CString) :
    strncmp str (piece ++ rest) piece.length = .eq ↔ piece <+: str := by
  rw [strncmp_eq_iff, List.take_left, List.prefix_iff_eq_take]
  exact eq_comm

theorem strpbrk_unmarked {name : CString} (h : ∀ c ∈ name, isResolution c = false) :
    strpbrk name resolutionMarks = none := by
  have hdrop : name.dropWhile (fun c => !resolutionMarks.contains c) = [] := by
    rw [List.dropWhile_eq_nil_iff]
    intro c hc
    simpa [isResolution] using h c hc
  rw [strpbrk, hdrop]

theorem strpbrk_piece {piece : CString} {m : Char} (h : ∀ c ∈ piece, isResolution c = false)
    (hm : isResolution m = true) (name : CString) :
    strpbrk (piece ++ m :: name) resolutionMarks = some (m :: name) := by
  have hdrop : (piece ++ m :: name).dropWhile (fun c => !resolutionMarks.contains c)
      = m :: name := by
    rw [List.dropWhile_append_of_pos (fun c hc => by simpa [isResolution] using h c hc),
      List.dropWhile_cons_of_neg (by simpa [isResolution] using hm)]
  rw [strpbrk, hdrop]

/-- A text without resolutions, or its first piece and the text after it. -/
theorem unmarked_or_piece (name : CString) :
    (∀ c ∈ name, isResolution c = false) ∨
      ∃ piece m tail, name = piece ++ m :: tail ∧ (∀ c ∈ piece, isResolution c = false) ∧
        isResolution m = true := by
  induction name with
  | nil => exact .inl (by simp)
  | cons c cs ih =>
      cases hc : isResolution c with
      | true => exact .inr ⟨[], c, cs, rfl, by simp, hc⟩
      | false =>
          rcases ih with hcs | ⟨piece, m, tail, rfl, hpiece, hm⟩
          · refine .inl ?_
            simpa [hc] using hcs
          · refine .inr ⟨c :: piece, m, tail, rfl, ?_, hm⟩
            simpa [hc] using hpiece

theorem scanTagSpec_unmarked {name : CString} (h : ∀ c ∈ name, isResolution c = false)
    (str : CString) (enabled : Option Bool) : scanTagSpec str name enabled = (enabled, name) := by
  have hnone := strpbrk_unmarked h
  rw [scanTagSpec]
  split
  · rfl
  · rename_i nameResolution hsome
    rw [hnone] at hsome
    cases hsome

theorem scanTagSpec_piece {piece : CString} {m : Char}
    (h : ∀ c ∈ piece, isResolution c = false) (hm : isResolution m = true)
    (str name : CString) (enabled : Option Bool) :
    scanTagSpec str (piece ++ m :: name) enabled =
      scanTagSpec str name
        (if decide (PrefixNamed str piece) then some (m == '+') else enabled) := by
  have hfound := strpbrk_piece h hm name
  rw [scanTagSpec]
  split
  · rename_i hnone
    rw [hfound] at hnone
    cases hnone
  · rename_i nameResolution hsome
    rw [hfound] at hsome
    cases hsome
    have hlen : (piece ++ m :: name).length - (m :: name).length = piece.length := by simp
    have hmatch : (decide (piece.length > 0)
        && (strncmp str (piece ++ m :: name) piece.length == .eq
          || strncmp allTags (piece ++ m :: name) piece.length == .eq))
        = decide (PrefixNamed str piece) := by
      rw [Bool.eq_iff_iff, decide_eq_true_iff]
      simp [PrefixNamed, strncmp_name_iff, List.length_pos_iff]
    simp only [hlen, hmatch, List.drop_succ_cons, List.drop_zero, List.head?_cons]
    rfl

/-- The scan is a fold over the pieces of the spec, and stops at its rest. -/
theorem scanTagSpec_eq (str name : CString) (enabled : Option Bool) :
    scanTagSpec str name enabled =
      ((tagVerdict str (tagSpecParts name).1).or enabled, (tagSpecParts name).2) := by
  rw [tagVerdict, ← foldl_eq_lastVerdict, tagSpecParts]
  -- induction on the length of what is still to be scanned, one piece at a time
  induction hn : name.length using Nat.strong_induction_on generalizing name enabled with
  | _ n ih =>
      rcases unmarked_or_piece name with hrest | ⟨piece, m, tail, rfl, hpiece, hm⟩
      · rw [scanTagSpec_unmarked hrest, cut_unmarked hrest]
        rfl
      · have hlt : tail.length < n := by
          rw [← hn, List.length_append, List.length_cons]
          omega
        rw [scanTagSpec_piece hpiece hm, cut_piece hpiece hm, List.foldl_cons]
        exact ih tail.length hlt tail _ rfl

/-! ## Runs of the logger -/

/-- The tag is already resolved under the current configuration. -/
def Logger.Resolved (s : Logger) (tag : LogTag) : Prop :=
  tag.curConfigId = s.gCurConfigId ∧ tag.isEnabled ≠ .logTagEnabled

instance (s : Logger) (tag : LogTag) : Decidable (s.Resolved tag) :=
  inferInstanceAs (Decidable (_ ∧ _))

/-- The tag as a resolution leaves it. -/
def LogTag.resolve (tag : LogTag) (enabled : Bool) (configId : UInt32) : LogTag :=
  { tag with
    curConfigId := configId
    isEnabled := if enabled then .tagEnabled else .tagDisabled }

theorem levelEnabled_fatal (s : Logger) : txvcLogLevelEnabled s .fatal = true := by
  cases h : s.gMinLevel <;> simp [txvcLogLevelEnabled, LogLevel.toNat, h]

theorem tagEnabledVia_resolved (call : LogCall) {tag : LogTag} {s : Logger}
    (h : s.Resolved tag) :
    tagEnabledVia call tag s = .ok ((tag.isEnabled == .tagEnabled, tag), s) := by
  have hcached : tag.curConfigId = s.gCurConfigId ∧ tag.isEnabled ≠ .logTagEnabled := h
  rw [tagEnabledVia, Exec.get_bind, if_pos hcached]
  rfl

/-- A tag that is resolved now, by a spec that is in order. -/
theorem tagEnabledVia_verdict (call : LogCall) {tag : LogTag} {s : Logger} {tagSpec : CString}
    {enabled : Bool} (hspec : s.gTagSpec = some tagSpec) (h : ¬s.Resolved tag)
    (hrest : (tagSpecParts tagSpec).2 = [])
    (hverdict : tagVerdict tag.str (tagSpecParts tagSpec).1 = some enabled) :
    tagEnabledVia call tag s = .ok ((enabled, tag.resolve enabled s.gCurConfigId), s) := by
  have huncached : ¬(tag.curConfigId = s.gCurConfigId ∧ tag.isEnabled ≠ .logTagEnabled) := h
  rw [tagEnabledVia, Exec.get_bind, if_neg huncached, hspec]
  simp only [scanTagSpec_eq, hrest, hverdict]
  rfl

/-- A `FATAL` message never returns to its caller. -/
theorem txvcLog_fatal_wp (fuel : ℕ) (tag : LogTag) (fmt : String) (args : List CString)
    (s : Logger) :
    Exec.wp (txvcLog fuel tag .fatal fmt args) (fun _ _ => False) (fun _ _ => True) s := by
  cases fuel with
  | zero => trivial
  | succ fuel =>
      rw [txvcLog, Exec.wp_bind, Exec.wp_get, if_pos (levelEnabled_fatal s), Exec.wp_bind]
      have htrivial : Exec.wp (tagEnabledVia (txvcLog fuel) tag) (fun _ _ => True)
          (fun _ _ => True) s := Exec.wp_always (fun _ _ => trivial) (fun _ _ => trivial)
      refine Exec.wp_mono htrivial ?_ (fun _ _ _ => trivial)
      rintro ⟨enabled, tag⟩ t _
      dsimp only
      rw [if_pos (Or.inr rfl), Exec.wp_bind, Exec.wp_modify, if_pos rfl]
      trivial

/-- A tag spec that leaves something open about the tag is reported. -/
theorem reportTagSpec_wp (fuel : ℕ) (tag : LogTag) (tagSpec : CString) {enabled : Option Bool}
    {name : CString} (h : name ≠ [] ∨ enabled = none) (s : Logger) :
    Exec.wp (reportTagSpec (txvcLog fuel) tag tagSpec enabled name) (fun _ _ => False)
      (fun _ _ => True) s := by
  rw [reportTagSpec, Exec.wp_bind]
  by_cases hname : name = []
  · have henabled : enabled = none := h.resolve_left (not_not.mpr hname)
    rw [if_neg (not_not.mpr hname), Exec.wp_pure, if_pos henabled, Exec.wp_bind]
    exact Exec.wp_mono (txvcLog_fatal_wp ..) (fun _ _ hf => hf.elim) (fun _ _ ht => ht)
  · rw [if_pos hname, Exec.wp_bind]
    exact Exec.wp_mono (txvcLog_fatal_wp ..) (fun _ _ hf => hf.elim) (fun _ _ ht => ht)

/-- The call of `txvc_log_tag_enabled` for `tag` returns `enabled`. -/
def Answers (s : Logger) (tag : LogTag) (enabled : Bool) : Prop :=
  ∃ fuel tag' t, txvcLogTagEnabled fuel tag s = .ok ((enabled, tag'), t)

theorem answers_iff {s : Logger} {tag : LogTag} {tagSpec : CString} (enabled : Bool)
    (hspec : s.gTagSpec = some tagSpec) (h : ¬s.Resolved tag) :
    Answers s tag enabled ↔ (tagSpecParts tagSpec).2 = [] ∧
      tagVerdict tag.str (tagSpecParts tagSpec).1 = some enabled := by
  constructor
  · rintro ⟨fuel, tag', t, hrun⟩
    by_cases hopen : (tagSpecParts tagSpec).2 ≠ [] ∨
        tagVerdict tag.str (tagSpecParts tagSpec).1 = none
    · have huncached : ¬(tag.curConfigId = s.gCurConfigId ∧ tag.isEnabled ≠ .logTagEnabled) := h
      rw [txvcLogTagEnabled, tagEnabledVia, Exec.get_bind, if_neg huncached, hspec] at hrun
      simp only [scanTagSpec_eq, Option.or_none] at hrun
      obtain ⟨u, s', hreport, -⟩ := Exec.bind_eq_ok hrun
      exact (Exec.wp_ok (reportTagSpec_wp fuel tag tagSpec hopen s) hreport).elim
    · obtain ⟨hrest, hsome⟩ := not_or.mp hopen
      obtain ⟨b, hb⟩ := Option.ne_none_iff_exists'.mp hsome
      have hgood := tagEnabledVia_verdict (txvcLog fuel) hspec h (not_not.mp hrest) hb
      rw [txvcLogTagEnabled, hgood] at hrun
      cases hrun
      exact ⟨not_not.mp hrest, hb⟩
  · rintro ⟨hrest, hverdict⟩
    exact ⟨0, _, s, tagEnabledVia_verdict (txvcLog 0) hspec h hrest hverdict⟩

/-! ## Exact names -/

/-- A name of a tag spec with its resolution. -/
structure SpecEntry where
  name : CString
  enable : Bool
  plain : ∀ c ∈ name, isResolution c = false

/-- A name is checked along its characters. -/
instance (name : CString) : Decidable (∀ c ∈ name, isResolution c = false) :=
  List.decidableBAll _ _

def SpecEntry.part (e : SpecEntry) : CString × Char := (e.name, if e.enable then '+' else '-')

/-- The tag spec with these entries. -/
def specText (entries : List SpecEntry) : CString := glue (entries.map SpecEntry.part) []

theorem tagSpecParts_specText (entries : List SpecEntry) :
    tagSpecParts (specText entries) = (entries.map SpecEntry.part, []) := by
  apply cut_glue
  · intro p hp
    obtain ⟨e, -, rfl⟩ := List.mem_map.mp hp
    refine ⟨e.plain, ?_⟩
    cases h : e.enable <;> simp [SpecEntry.part, h, isResolution, resolutionMarks]
  · simp

/-- The resolution of the last entry whose name is accepted by `named`. -/
def lastResolution (named : CString → Prop) [DecidablePred named] (entries : List SpecEntry) :
    Option Bool :=
  lastVerdict (fun e => decide (named e.name)) SpecEntry.enable entries

theorem tagVerdict_map_part (str : CString) (entries : List SpecEntry) :
    tagVerdict str (entries.map SpecEntry.part) = lastResolution (PrefixNamed str) entries := by
  have hplus (e : SpecEntry) : (e.part.2 == '+') = e.enable := by
    cases h : e.enable <;> simp [SpecEntry.part, h]
  rw [tagVerdict, lastResolution, lastVerdict, lastVerdict, List.filter_map,
    List.getLast?_map, Option.map_map]
  have hcomp : (fun p : CString × Char => p.2 == '+') ∘ SpecEntry.part = SpecEntry.enable :=
    funext hplus
  rw [hcomp]
  rfl

/-- The answers about a tag are those of the last entry named by the tag's name
or by "all"; other entries have no effect. -/
def FollowsExactNames (s : Logger) (entries : List SpecEntry) (tag : LogTag) : Prop :=
  ∀ enabled, Answers s tag enabled ↔
    lastResolution (ExactNamed tag.str) entries = some enabled

theorem tag_follows_exact_names_iff (s : Logger) (entries : List SpecEntry) (minLevel : LogLevel)
    (withTimestamps : Bool) (tag : LogTag)
    (h : ¬(txvcLogConfigure (specText entries) minLevel withTimestamps s).Resolved tag) :
    FollowsExactNames (txvcLogConfigure (specText entries) minLevel withTimestamps s) entries tag ↔
      lastResolution (PrefixNamed tag.str) entries = lastResolution (ExactNamed tag.str) entries
    := by
  have hanswers (enabled : Bool) :
      Answers (txvcLogConfigure (specText entries) minLevel withTimestamps s) tag enabled ↔
        lastResolution (PrefixNamed tag.str) entries = some enabled := by
    rw [answers_iff enabled rfl h, tagSpecParts_specText, tagVerdict_map_part]
    exact ⟨And.right, fun hlast => ⟨rfl, hlast⟩⟩
  constructor
  · intro hfollows
    apply Option.ext
    intro enabled
    exact (hanswers enabled).symm.trans (hfollows enabled)
  · intro heq enabled
    rw [hanswers, heq]

/-- The logger before its first configuration. -/
def initialLogger : Logger where
  gMinLevel := .error
  gTagSpec := none
  gCurConfigId := 0
  gWithTimestamps := false
  printed := []

/-- "all-mem+mempool-memory+" -/
def overridingEntries : List SpecEntry :=
  [⟨allTags, false, by decide⟩, ⟨['m', 'e', 'm'], true, by decide⟩,
    ⟨['m', 'e', 'm', 'p', 'o', 'o', 'l'], false, by decide⟩,
    ⟨['m', 'e', 'm', 'o', 'r', 'y'], true, by decide⟩]

/-- The entry with the tag's own name overrides the one with a prefix of it. -/
theorem tag_follows_exact_names_iff_overridden :
    FollowsExactNames (txvcLogConfigure (specText overridingEntries) .info false initialLogger)
      overridingEntries (LogTag.initializer ['m', 'e', 'm', 'p', 'o', 'o', 'l']) :=
  (tag_follows_exact_names_iff initialLogger overridingEntries .info false
    (LogTag.initializer ['m', 'e', 'm', 'p', 'o', 'o', 'l']) (by decide)).mpr (by decide)

/-- "all-mem+" enables the tag "mempool", which no entry names. -/
theorem tag_enabled_by_prefix :
    ¬FollowsExactNames
      (txvcLogConfigure
        (specText [⟨allTags, false, by decide⟩, ⟨['m', 'e', 'm'], true, by decide⟩])
        .info false initialLogger)
      [⟨allTags, false, by decide⟩, ⟨['m', 'e', 'm'], true, by decide⟩]
      (LogTag.initializer ['m', 'e', 'm', 'p', 'o', 'o', 'l']) := by
  intro hfollows
  have hexact : lastResolution (ExactNamed ['m', 'e', 'm', 'p', 'o', 'o', 'l'])
      [⟨allTags, false, by decide⟩, ⟨['m', 'e', 'm'], true, by decide⟩] = some false := by
    decide
  obtain ⟨fuel, tag, t, hrun⟩ := (hfollows false).mpr hexact
  have hanswer := (answers_iff false rfl (by decide)).mp ⟨fuel, tag, t, hrun⟩
  exact absurd hanswer.2 (by decide)

end TinyXvc
