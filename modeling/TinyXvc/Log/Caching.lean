import TinyXvc.Log.Termination

/-!
# Resolved tags between configurations

A tag keeps the answer of its resolution with the number of the configuration
that gave it.  Numbers of configurations only grow until they wrap around, so a
number that matches belongs to the current tag spec.
-/

namespace TinyXvc

variable {ι : Type} [DecidableEq ι]

/-- The calls of a run over the tags `ι`. -/
inductive LogOp (ι : Type) where
  | configure (tagSpec : CString) (minLevel : LogLevel) (withTimestamps : Bool)
  | query (tag : ι)
  deriving DecidableEq

/-- The logger with the tags of its clients. -/
structure TaggedLogger (ι : Type) where
  logger : Logger
  tags : ι → LogTag

def queryTag (fuel : ℕ) (i : ι) : Exec LogStop (TaggedLogger ι) Bool := fun s =>
  match txvcLogTagEnabled fuel (s.tags i) s.logger with
  | .ok ((enabled, tag), logger) => .ok (enabled, ⟨logger, Function.update s.tags i tag⟩)
  | .error (stop, logger) => .error (stop, { s with logger := logger })

/-- The answers to the queries of a run. -/
def runLog (fuel : ℕ) : List (LogOp ι) → Exec LogStop (TaggedLogger ι) (List Bool)
  | [] => pure []
  | .configure tagSpec minLevel withTimestamps :: ops => do
      modify fun s =>
        { s with logger := txvcLogConfigure tagSpec minLevel withTimestamps s.logger }
      runLog fuel ops
  | .query i :: ops => do
      let enabled ← queryTag fuel i
      let answers ← runLog fuel ops
      pure (enabled :: answers)

/-- The start of the program, with tags of `TXVC_LOG_TAG_INITIALIZER`. -/
def initialTags (names : ι → CString) : TaggedLogger ι :=
  ⟨initialLogger, fun i => LogTag.initializer (names i)⟩

def configuredSpecs : List (LogOp ι) → List CString
  | [] => []
  | .configure tagSpec _ _ :: ops => tagSpec :: configuredSpecs ops
  | .query _ :: ops => configuredSpecs ops

def queriedTags : List (LogOp ι) → List ι
  | [] => []
  | .configure .. :: ops => queriedTags ops
  | .query i :: ops => i :: queriedTags ops

/-! ## Answers without a cache -/

/-- What a scan of the current tag spec answers. -/
def freshAnswer (str : CString) (current : Option CString) : Option Bool :=
  current.bind fun tagSpec => (scanTagSpec str tagSpec none).1

/-- The answers of fresh scans to the queries of a run. -/
def freshAnswers (names : ι → CString) : Option CString → List (LogOp ι) → List (Option Bool)
  | _, [] => []
  | _, .configure tagSpec _ _ :: ops => freshAnswers names (some tagSpec) ops
  | current, .query i :: ops => freshAnswer (names i) current :: freshAnswers names current ops

theorem freshAnswer_some (str tagSpec : CString) :
    freshAnswer str (some tagSpec) = tagVerdict str (tagSpecParts tagSpec).1 := by
  simp [freshAnswer, scanTagSpec_eq]

/-! ## The invariant -/

/-- A tag that counts as resolved keeps what the current tag spec answers. -/
structure Cached (str : CString) (s : Logger) (tag : LogTag) : Prop where
  name : tag.str = str
  seen : tag.isEnabled ≠ .logTagEnabled → tag.curConfigId ≤ s.gCurConfigId
  fresh : s.Resolved tag → freshAnswer str s.gTagSpec = some (tag.isEnabled == .tagEnabled)

theorem cached_initializer (str : CString) (s : Logger) :
    Cached str s (LogTag.initializer str) := by
  constructor
  · rfl
  · intro hresolved
    exact absurd rfl hresolved
  · intro hresolved
    exact absurd rfl hresolved.2

/-- A configuration makes every earlier resolution void. -/
theorem Cached.configure {str : CString} {s : Logger} {tag : LogTag} (h : Cached str s tag)
    (hid : s.gCurConfigId.toNat + 1 < 2 ^ 32) (tagSpec : CString) (minLevel : LogLevel)
    (withTimestamps : Bool) :
    Cached str (txvcLogConfigure tagSpec minLevel withTimestamps s) tag := by
  have hnext : (s.gCurConfigId + 1).toNat = s.gCurConfigId.toNat + 1 := by
    rw [UInt32.toNat_add]
    exact Nat.mod_eq_of_lt hid
  constructor
  · exact h.name
  · intro hresolved
    have hseen := UInt32.le_iff_toNat_le.mp (h.seen hresolved)
    rw [UInt32.le_iff_toNat_le]
    change tag.curConfigId.toNat ≤ (s.gCurConfigId + 1).toNat
    omega
  · rintro ⟨hcurrent, hresolved⟩
    have hseen := UInt32.le_iff_toNat_le.mp (h.seen hresolved)
    have hequal : tag.curConfigId.toNat = (s.gCurConfigId + 1).toNat :=
      congrArg UInt32.toNat hcurrent
    omega

theorem cached_resolve {str : CString} {s : Logger} {tag : LogTag} {enabled : Bool}
    (hname : tag.str = str) (hanswer : freshAnswer str s.gTagSpec = some enabled) :
    Cached str s (tag.resolve enabled s.gCurConfigId) := by
  constructor
  · exact hname
  · intro _
    exact UInt32.le_refl _
  · intro _
    cases enabled <;> exact hanswer

/-- A query that the current tag spec resolves. -/
theorem query_cached {str tagSpec : CString} {s : Logger} {tag : LogTag} (fuel : ℕ)
    (h : Cached str s tag) (hspec : s.gTagSpec = some tagSpec) (hresolves : Resolves tagSpec str) :
    ∃ enabled tag', txvcLogTagEnabled fuel tag s = .ok ((enabled, tag'), s) ∧
      freshAnswer str s.gTagSpec = some enabled ∧ Cached str s tag' := by
  by_cases hcached : s.Resolved tag
  · exact ⟨_, tag, tagEnabledVia_resolved _ hcached, h.fresh hcached, h⟩
  · obtain ⟨hrest, enabled, hverdict⟩ := (resolves_iff _ _).mp hresolves
    have hanswer : freshAnswer str s.gTagSpec = some enabled := by
      rw [hspec, freshAnswer_some, hverdict]
    rw [← h.name] at hverdict
    exact ⟨enabled, _, tagEnabledVia_verdict _ hspec hcached hrest hverdict, hanswer,
      cached_resolve h.name hanswer⟩

/-- Every tag is in order. -/
def AllCached (names : ι → CString) (s : TaggedLogger ι) : Prop :=
  ∀ i, Cached (names i) s.logger (s.tags i)

theorem queryTag_cached {names : ι → CString} {s : TaggedLogger ι} {tagSpec : CString} (fuel : ℕ)
    (i : ι) (h : AllCached names s) (hspec : s.logger.gTagSpec = some tagSpec)
    (hresolves : Resolves tagSpec (names i)) :
    ∃ enabled tags, queryTag fuel i s = .ok (enabled, ⟨s.logger, tags⟩) ∧
      freshAnswer (names i) s.logger.gTagSpec = some enabled ∧
      AllCached names ⟨s.logger, tags⟩ := by
  obtain ⟨enabled, tag, hrun, hanswer, hcached⟩ := query_cached fuel (h i) hspec hresolves
  refine ⟨enabled, Function.update s.tags i tag, ?_, hanswer, ?_⟩
  · rw [queryTag, hrun]
  · intro j
    by_cases hj : j = i
    · subst hj
      simpa using hcached
    · simpa [hj] using h j

/-- A run after a configuration. -/
theorem runLog_cached {names : ι → CString} (fuel : ℕ) (ops : List (LogOp ι))
    {s : TaggedLogger ι} {tagSpec : CString} (h : AllCached names s)
    (hspec : s.logger.gTagSpec = some tagSpec)
    (hid : s.logger.gCurConfigId.toNat + (configuredSpecs ops).length < 2 ^ 32)
    (hcurrent : ∀ i ∈ queriedTags ops, Resolves tagSpec (names i))
    (hresolves : ∀ spec ∈ configuredSpecs ops, ∀ i ∈ queriedTags ops, Resolves spec (names i)) :
    Exec.wp (runLog fuel ops)
      (fun answers _ => answers.map some = freshAnswers names s.logger.gTagSpec ops)
      (fun _ _ => False) s := by
  induction ops generalizing s tagSpec with
  | nil => exact rfl
  | cons op ops ih =>
      cases op with
      | configure spec minLevel withTimestamps =>
          rw [configuredSpecs, List.length_cons] at hid
          rw [runLog, Exec.wp_bind, Exec.wp_modify]
          have hnext : (s.logger.gCurConfigId + 1).toNat = s.logger.gCurConfigId.toNat + 1 := by
            rw [UInt32.toNat_add]
            apply Nat.mod_eq_of_lt
            change s.logger.gCurConfigId.toNat + 1 < 2 ^ 32
            omega
          refine ih ?_ rfl ?_ ?_ ?_
          · intro i
            exact (h i).configure (by omega) spec minLevel withTimestamps
          · change (s.logger.gCurConfigId + 1).toNat + (configuredSpecs ops).length < 2 ^ 32
            omega
          · intro i hi
            exact hresolves spec List.mem_cons_self i hi
          · intro later hlater i hi
            exact hresolves later (List.mem_cons_of_mem _ hlater) i hi
      | query i =>
          obtain ⟨enabled, tags, hrun, hanswer, hcached⟩ :=
            queryTag_cached fuel i h hspec (hcurrent i List.mem_cons_self)
          have hrest := ih (s := ⟨s.logger, tags⟩) hcached hspec hid
            (fun j hj => hcurrent j (List.mem_cons_of_mem _ hj))
            (fun spec hspec j hj => hresolves spec hspec j (List.mem_cons_of_mem _ hj))
          rw [runLog, Exec.wp_bind_ok hrun, Exec.wp_bind]
          refine Exec.wp_mono hrest ?_ (fun _ _ hf => hf)
          intro answers t hanswers
          rw [Exec.wp_pure, List.map_cons, freshAnswers, hanswer, hanswers]

/-- Before the first configuration a query scans `NULL`. -/
theorem queryTag_unconfigured (names : ι → CString) (fuel : ℕ) (i : ι) :
    queryTag fuel i (initialTags names) = .error (.nullPointer, initialTags names) := rfl

theorem cached_answers_fresh (names : ι → CString) (ops : List (LogOp ι)) (fuel : ℕ)
    (hconfigs : (configuredSpecs ops).length < 2 ^ 32)
    (hresolves : ∀ tagSpec ∈ configuredSpecs ops, ∀ i ∈ queriedTags ops,
      Resolves tagSpec (names i)) :
    Exec.wp (runLog fuel ops)
      (fun answers _ => answers.map some = freshAnswers names none ops)
      (fun stop _ => stop = .nullPointer ∧ ∃ i rest, ops = .query i :: rest)
      (initialTags names) := by
  cases ops with
  | nil => exact rfl
  | cons op ops =>
      cases op with
      | query i =>
          have hrun := queryTag_unconfigured names fuel i
          rw [runLog, Exec.wp, Exec.bind_error hrun]
          exact ⟨rfl, i, ops, rfl⟩
      | configure spec minLevel withTimestamps =>
          rw [configuredSpecs, List.length_cons] at hconfigs
          rw [runLog, Exec.wp_bind, Exec.wp_modify]
          have hid : (0 + 1 : UInt32).toNat = 1 := rfl
          have hrun := runLog_cached fuel ops
            (s := ⟨txvcLogConfigure spec minLevel withTimestamps initialLogger,
              fun i => LogTag.initializer (names i)⟩)
            (fun i => cached_initializer _ _) rfl
            (by change (0 + 1 : UInt32).toNat + (configuredSpecs ops).length < 2 ^ 32; omega)
            (fun i hi => hresolves spec List.mem_cons_self i hi)
            (fun later hlater i hi => hresolves later (List.mem_cons_of_mem _ hlater) i hi)
          exact Exec.wp_mono hrun (fun _ _ hanswers => hanswers) (fun _ _ hf => hf.elim)

/-- The tag "foo" is enabled, then disabled, and asked twice each time. -/
theorem cached_answers_fresh_foo :
    Exec.wp (runLog 0 [.configure ['f', 'o', 'o', '+'] .verbose false, .query (), .query (),
        .configure ['f', 'o', 'o', '-'] .verbose false, .query (), .query ()])
      (fun answers _ => answers.map some = [some true, some true, some false, some false])
      (fun stop _ => stop = .nullPointer ∧ ∃ i rest,
        [.configure ['f', 'o', 'o', '+'] .verbose false, .query (), .query (),
          .configure ['f', 'o', 'o', '-'] .verbose false, .query (), .query ()]
            = LogOp.query i :: rest)
      (initialTags fun _ : Unit => ['f', 'o', 'o']) := by
  have hanswers : freshAnswers (fun _ : Unit => ['f', 'o', 'o']) none
      [.configure ['f', 'o', 'o', '+'] .verbose false, .query (), .query (),
        .configure ['f', 'o', 'o', '-'] .verbose false, .query (), .query ()]
      = [some true, some true, some false, some false] := by decide +kernel
  rw [← hanswers]
  exact cached_answers_fresh (fun _ : Unit => ['f', 'o', 'o']) _ 0 (by decide) (by decide)

end TinyXvc
