import TinyXvc.Profile

/-!
# Profile parsing

What the parser leaves in the scratchpad reads as the text split at its first
colon, at every comma, and at the first equals sign of each piece.
-/

namespace TinyXvc

open CBuffer

namespace Profile

/-- The driver name of a text. -/
def driver (s : CString) : CString := s.takeWhile (· ≠ ':')

/-- The text split at its commas; one final empty piece does not count. -/
def pieces (rest : CString) : List CString :=
  if (rest.splitOn ',').getLast? = some [] then (rest.splitOn ',').dropLast else rest.splitOn ','

/-- The arguments of a text, behind its first colon. -/
def segments (s : CString) : List CString := pieces ((s.dropWhile (· ≠ ':')).drop 1)

def keyValue (seg : CString) : CString × CString :=
  (seg.takeWhile (· ≠ '='), (seg.dropWhile (· ≠ '=')).drop 1)

/-- `driver:k=v,k=v,...` -/
def render (name : CString) (args : List (CString × CString)) : CString :=
  name ++ ':' :: List.intercalate [','] (args.map fun kv => kv.1 ++ '=' :: kv.2)

theorem pieces_nil : pieces [] = [] := rfl

theorem pieces_single {seg : CString} (hne : seg ≠ []) (hseg : ',' ∉ seg) : pieces seg = [seg] := by
  have hlast : [seg].getLast? ≠ some [] := by simpa using hne
  rw [pieces, List.splitOn_eq_singleton hseg, if_neg hlast]

theorem pieces_cons {seg : CString} (hseg : ',' ∉ seg) (rest : CString) :
    pieces (seg ++ ',' :: rest) = seg :: pieces rest := by
  have hne := List.splitOn_ne_nil ',' rest
  rw [pieces, List.splitOn_append_cons_self_of_not_mem hseg, pieces,
    List.getLast?_cons_of_ne_nil hne, List.dropLast_cons_of_ne_nil hne]
  split <;> rfl

theorem pieces_ne_nil {rest : CString} (hne : rest ≠ []) : pieces rest ≠ [] := by
  by_cases hcomma : ',' ∈ rest
  · obtain ⟨seg, rest', rfl, hseg⟩ := List.eq_append_cons_of_mem hcomma
    rw [pieces_cons hseg]
    exact List.cons_ne_nil _ _
  · rw [pieces_single hne hcomma]
    exact List.cons_ne_nil _ _

theorem segments_cut {name rest : CString} (h : ':' ∉ name) :
    segments (name ++ ':' :: rest) = pieces rest := by
  rw [segments, dropWhile_cut h]
  rfl

theorem segments_uncut {name : CString} (h : ':' ∉ name) : segments name = [] := by
  rw [segments, dropWhile_uncut h]
  rfl

theorem segments_render {name : CString} (hname : ':' ∉ name) {args : List (CString × CString)}
    (hcomma : ∀ kv ∈ args, ',' ∉ kv.1 ∧ ',' ∉ kv.2) :
    segments (render name args) = args.map fun kv => kv.1 ++ '=' :: kv.2 := by
  rw [render, segments_cut hname]
  by_cases hnil : args = []
  · subst hnil
    rfl
  · have hfree : ∀ l ∈ args.map fun kv => kv.1 ++ '=' :: kv.2, ',' ∉ l := by
      intro l hl
      obtain ⟨kv, hkv, rfl⟩ := List.mem_map.mp hl
      obtain ⟨hk, hv⟩ := hcomma kv hkv
      simp [hk, hv]
    have hsplit := List.splitOn_intercalate ',' hfree (mt List.map_eq_nil_iff.mp hnil)
    have hlast : (args.map fun kv => kv.1 ++ '=' :: kv.2).getLast? ≠ some [] := by
      intro h
      obtain ⟨kv, -, hkv⟩ := List.mem_map.mp (List.mem_of_getLast? h)
      exact List.append_ne_nil_of_right_ne_nil _ (List.cons_ne_nil _ _) hkv
    rw [pieces, hsplit, if_neg hlast]

theorem keyValue_pair {k : CString} (hk : '=' ∉ k) (v : CString) :
    keyValue (k ++ '=' :: v) = (k, v) := by
  rw [keyValue, takeWhile_cut hk, dropWhile_cut hk]
  rfl

end Profile

open Profile

/-- Whatever stands behind the first `k` characters, the profile reads as the
driver name `name` with the arguments `args`. -/
def BackendProfile.ReadsAs (p : BackendProfile) (k : ℕ) (name : CString)
    (args : List (CString × CString)) : Prop :=
  p.numArg = args.length ∧
  ∀ buf, buf.take k = p.privateScratchpad.take k →
    { p with privateScratchpad := buf }.contents = (name, args)

theorem BackendProfile.ReadsAs.contents {p : BackendProfile} {k : ℕ} {name : CString}
    {args : List (CString × CString)} (h : p.ReadsAs k name args) : p.contents = (name, args) :=
  h.2 p.privateScratchpad rfl

/-- `argKeys[numArg] = key`, `argValues[numArg] = value` and `numArg++`. -/
def BackendProfile.push (p : BackendProfile) (key value : CharPtr) : BackendProfile :=
  { p with
    argKeys := Function.update p.argKeys p.numArg key
    argValues := Function.update p.argValues p.numArg value
    numArg := p.numArg + 1 }

theorem BackendProfile.contents_push (p : BackendProfile) (key value : CharPtr) :
    (p.push key value).contents =
      (p.contents.1, p.contents.2 ++ [(p.str key, p.str value)]) := by
  have hold : (List.range p.numArg).map (fun i =>
      ((p.push key value).str ((p.push key value).argKeys i),
        (p.push key value).str ((p.push key value).argValues i))) =
      (List.range p.numArg).map fun i => (p.str (p.argKeys i), p.str (p.argValues i)) := by
    apply List.map_congr_left
    intro i hi
    have hne : i ≠ p.numArg := (List.mem_range.mp hi).ne
    simp only [push, Function.update_of_ne hne]
    rfl
  unfold contents
  change (_, (List.range (p.numArg + 1)).map _) = _
  rw [List.range_succ, List.map_append, hold]
  simp only [push, List.map_cons, List.map_nil, Function.update_self]
  rfl

/-- One more argument, which reads as `(k, v)` from the characters `mid`. -/
theorem BackendProfile.ReadsAs.push {p : BackendProfile} {pre : List Char} {name : CString}
    {args : List (CString × CString)} (h : p.ReadsAs pre.length name args)
    (hpre : p.privateScratchpad.take pre.length = pre) {mid : List Char} {key value : CharPtr}
    {k v : CString}
    (hread : ∀ rest, { p with privateScratchpad := pre ++ (mid ++ rest) }.str key = k ∧
      { p with privateScratchpad := pre ++ (mid ++ rest) }.str value = v) (post : List Char) :
    ({ p with privateScratchpad := pre ++ (mid ++ post) }.push key value).ReadsAs
      (pre ++ mid).length name (args ++ [(k, v)]) := by
  constructor
  · rw [List.length_append, ← h.1]
    rfl
  · intro buf hbuf
    have hsplit : buf = pre ++ (mid ++ buf.drop (pre ++ mid).length) := by
      have htake : buf.take (pre ++ mid).length = pre ++ mid := by
        rw [hbuf]
        change (pre ++ (mid ++ post)).take (pre ++ mid).length = pre ++ mid
        rw [← List.append_assoc, List.take_left]
      rw [← List.append_assoc, ← htake, List.length_take_of_le, List.take_append_drop]
      rw [← htake]
      exact List.length_take_le' _ _
    obtain ⟨hkey, hvalue⟩ := hread (buf.drop (pre ++ mid).length)
    rw [← hsplit] at hkey hvalue
    have hold : buf.take pre.length = p.privateScratchpad.take pre.length := by
      rw [hpre, hsplit, List.take_left]
    have hpush := BackendProfile.contents_push { p with privateScratchpad := buf } key value
    rw [h.2 buf hold, hkey, hvalue] at hpush
    exact hpush

/-- The argument `seg` is added, and cut at its first `=`. -/
theorem addArg_spec {out : BackendProfile} {pre seg post : List Char} {name : CString}
    {args : List (CString × CString)}
    (hscratch : out.privateScratchpad = pre ++ (seg ++ '\x00' :: post)) (hseg : '\x00' ∉ seg)
    (h : out.ReadsAs pre.length name args) :
    ∃ mid : List Char, mid.length = seg.length + 1 ∧
      (addArg out pre.length).privateScratchpad = pre ++ (mid ++ post) ∧
      (addArg out pre.length).ReadsAs (pre ++ mid).length name (args ++ [keyValue seg]) := by
  have hpre : out.privateScratchpad.take pre.length = pre := by
    rw [hscratch, List.take_left]
  by_cases heq : '=' ∈ seg
  · obtain ⟨k, v, rfl, hk⟩ := List.eq_append_cons_of_mem heq
    have hfound : strchr out.privateScratchpad pre.length '=' = some (pre.length + k.length) := by
      rw [hscratch]
      exact strchr_eq_some hseg hk
    have hkzero : '\x00' ∉ k := fun hmem => hseg (List.mem_append_left _ hmem)
    have hvzero : '\x00' ∉ v := fun hmem =>
      hseg (List.mem_append_right _ (List.mem_cons_of_mem _ hmem))
    have hset : out.privateScratchpad.set (pre.length + k.length) '\x00' =
        pre ++ (k ++ '\x00' :: v ++ ['\x00'] ++ post) := by
      rw [hscratch, ← List.length_append]
      have hcut := set_append (pre ++ k) '=' '\x00' (v ++ '\x00' :: post)
      simp only [List.append_assoc, List.cons_append, List.nil_append] at hcut ⊢
      exact hcut
    have hadd : addArg out pre.length =
        { out with privateScratchpad := pre ++ (k ++ '\x00' :: v ++ ['\x00'] ++ post) }.push
          (.scratchpad pre.length) (.scratchpad (pre.length + k.length + 1)) := by
      rw [← hset, addArg, hfound]
      rfl
    refine ⟨k ++ '\x00' :: v ++ ['\x00'], by simp [Nat.add_assoc], by rw [hadd]; rfl, ?_⟩
    rw [hadd, keyValue_pair hk]
    refine h.push hpre (fun rest => ⟨?_, ?_⟩) post
    · have hread := str_append (p := pre) (q := v ++ '\x00' :: rest) hkzero
      simpa [BackendProfile.str] using hread
    · have hread := str_append (p := pre ++ (k ++ ['\x00'])) (q := rest) hvzero
      simpa [BackendProfile.str, ← Nat.add_assoc] using hread
  · have hnone : strchr out.privateScratchpad pre.length '=' = none := by
      rw [hscratch]
      exact strchr_eq_none hseg heq
    have hadd : addArg out pre.length =
        { out with privateScratchpad := pre ++ (seg ++ ['\x00'] ++ post) }.push
          (.scratchpad pre.length) (.literal []) := by
      have hsame : pre ++ (seg ++ ['\x00'] ++ post) = out.privateScratchpad := by
        rw [hscratch]
        simp
      rw [hsame, addArg, hnone]
      rfl
    refine ⟨seg ++ ['\x00'], by simp, by rw [hadd]; rfl, ?_⟩
    rw [hadd, keyValue, takeWhile_uncut heq, dropWhile_uncut heq]
    refine h.push hpre (fun rest => ⟨?_, rfl⟩) post
    have hread := str_append (p := pre) (q := rest) hseg
    simpa [BackendProfile.str] using hread

/-- `cutArg` splits at the first comma. -/
theorem cutArg_spec {out : BackendProfile} {pre seg rest post : List Char}
    (hscratch : out.privateScratchpad = pre ++ (seg ++ ',' :: rest ++ '\x00' :: post))
    (hzero : '\x00' ∉ seg ++ ',' :: rest) (hseg : ',' ∉ seg) :
    cutArg out pre.length =
      ({ out with privateScratchpad := pre ++ (seg ++ '\x00' :: (rest ++ '\x00' :: post)) },
        some (pre.length + (seg.length + 1))) := by
  have hfound : strchr out.privateScratchpad pre.length ',' = some (pre.length + seg.length) := by
    rw [hscratch]
    exact strchr_eq_some hzero hseg
  have hset : out.privateScratchpad.set (pre.length + seg.length) '\x00' =
      pre ++ (seg ++ '\x00' :: (rest ++ '\x00' :: post)) := by
    rw [hscratch, ← List.length_append]
    have hcut := set_append (pre ++ seg) ',' '\x00' (rest ++ '\x00' :: post)
    simp only [List.append_assoc, List.cons_append] at hcut ⊢
    exact hcut
  rw [← hset, cutArg, hfound]
  rfl

/-- The loop reads the text `rest` that is left, and adds its pieces. -/
theorem parseArgs_spec {out : BackendProfile} {pre rest post : List Char} {name : CString}
    {args : List (CString × CString)}
    (hscratch : out.privateScratchpad = pre ++ (rest ++ '\x00' :: post)) (hrest : '\x00' ∉ rest)
    (h : out.ReadsAs pre.length name args) (hle : args.length ≤ 32) :
    (parseArgs out (some pre.length)).map BackendProfile.contents =
      if args.length + (pieces rest).length ≤ 32 then
        some (name, args ++ (pieces rest).map keyValue)
      else none := by
  induction hn : rest.length using Nat.strong_induction_on generalizing out pre rest args with
  | _ n ih =>
  subst hn
  rw [parseArgs]
  have hchar : out.privateScratchpad.getD pre.length '\x00' = rest.headD '\x00' := by
    rw [hscratch, List.getD_eq_getElem?_getD, List.getElem?_append_right le_rfl, Nat.sub_self]
    cases rest <;> rfl
  by_cases hnil : rest = []
  · subst hnil
    rw [hchar, List.headD_nil, if_pos rfl, pieces_nil, List.length_nil, Nat.add_zero, if_pos hle,
      List.map_nil, List.append_nil, Option.map_some, h.contents]
  have hsome : ¬out.privateScratchpad.getD pre.length '\x00' = '\x00' := by
    rw [hchar]
    cases rest with
    | nil => exact absurd rfl hnil
    | cons c rest => exact fun hc => hrest (hc ▸ List.mem_cons_self)
  have hpos : 0 < (pieces rest).length := List.length_pos_of_ne_nil (pieces_ne_nil hnil)
  rw [if_neg hsome, h.1]
  by_cases hfull : args.length ≥ 32
  · have hmany : ¬args.length + (pieces rest).length ≤ 32 := by omega
    rw [if_pos hfull, if_neg hmany, Option.map_none]
  rw [if_neg hfull]
  by_cases hcomma : ',' ∈ rest
  · obtain ⟨seg, rest', rfl, hseg⟩ := List.eq_append_cons_of_mem hcomma
    have hzero : '\x00' ∉ seg := fun hmem => hrest (List.mem_append_left _ hmem)
    have hzero' : '\x00' ∉ rest' := fun hmem =>
      hrest (List.mem_append_right _ (List.mem_cons_of_mem _ hmem))
    rw [cutArg_spec hscratch hrest hseg]
    have hcut : BackendProfile.ReadsAs { out with
        privateScratchpad := pre ++ (seg ++ '\x00' :: (rest' ++ '\x00' :: post)) }
        pre.length name args := by
      refine ⟨h.1, fun buf hbuf => h.2 buf ?_⟩
      rw [hbuf, hscratch, List.take_left, List.take_left]
    obtain ⟨mid, hmid, hscratch', hreads⟩ := addArg_spec rfl hzero hcut
    have hnext : pre.length + (seg.length + 1) = (pre ++ mid).length := by
      rw [List.length_append, hmid]
    dsimp only
    rw [hnext]
    have hlen : (args ++ [keyValue seg]).length = args.length + 1 := by simp
    rw [ih rest'.length (by simp; omega) (by rw [hscratch', List.append_assoc]) hzero' hreads
      (by omega) rfl, pieces_cons hseg, hlen, List.length_cons, List.map_cons, List.append_assoc,
      List.singleton_append]
    congr 2
    omega
  · have hnone : cutArg out pre.length = (out, none) := by
      rw [cutArg, hscratch, strchr_eq_none hrest hcomma]
    obtain ⟨mid, -, -, hreads⟩ := addArg_spec hscratch hrest h
    rw [hnone, parseArgs, Option.map_some, hreads.contents, pieces_single hnil hcomma,
      List.length_singleton, if_pos (by omega)]
    rfl

/-- A driver name alone, up to its NUL. -/
theorem readsAs_driver {out : BackendProfile} {name post : List Char} (hname : '\x00' ∉ name)
    (hdriver : out.driverName = .scratchpad 0) (hnum : out.numArg = 0)
    (hscratch : out.privateScratchpad = name ++ '\x00' :: post) :
    out.ReadsAs (name ++ ['\x00']).length name [] := by
  refine ⟨hnum, fun buf hbuf => ?_⟩
  have htake : buf.take (name ++ ['\x00']).length = name ++ ['\x00'] := by
    rw [hbuf, hscratch, List.append_cons name _ post, List.take_left]
  have hread : CBuffer.str buf 0 = name := by
    rw [← List.take_append_drop (name ++ ['\x00']).length buf, htake, List.append_assoc]
    exact str_append (p := []) hname
  unfold BackendProfile.contents
  dsimp only
  rw [hdriver, hnum, BackendProfile.str, hread]
  rfl

/-- What the parser accepts, and how its result reads. -/
theorem txvcBackendProfileParse_spec {s : CString} (hs : '\x00' ∉ s) (out : BackendProfile) :
    (txvcBackendProfileParse s out).map BackendProfile.contents =
      if s.length ≤ 1023 ∧ (segments s).length ≤ 32 then
        some (driver s, (segments s).map keyValue)
      else none := by
  unfold txvcBackendProfileParse
  by_cases hlong : s.length > 1024 - 1
  · rw [if_pos hlong, if_neg (by omega)]
    rfl
  have hshort : s.length ≤ 1023 := by omega
  simp only [if_neg hlong, hshort, true_and]
  generalize out.privateScratchpad.drop (s.length + 1) = stale
  by_cases hcolon : ':' ∈ s
  · obtain ⟨name, rest, rfl, hname⟩ := List.eq_append_cons_of_mem hcolon
    have hzero : '\x00' ∉ name := fun hmem => hs (List.mem_append_left _ hmem)
    have hzero' : '\x00' ∉ rest := fun hmem =>
      hs (List.mem_append_right _ (List.mem_cons_of_mem _ hmem))
    have hfound : strchr (name ++ ':' :: rest ++ '\x00' :: stale) 0 ':' = some name.length := by
      have h := strchr_eq_some (p := []) (q := stale) hs hname
      rwa [List.nil_append, List.length_nil, Nat.zero_add] at h
    have hset : (name ++ ':' :: rest ++ '\x00' :: stale).set name.length '\x00' =
        name ++ ['\x00'] ++ (rest ++ '\x00' :: stale) := by
      have h := set_append name ':' '\x00' (rest ++ '\x00' :: stale)
      simp only [List.append_assoc, List.cons_append, List.nil_append] at h ⊢
      exact h
    have hnext : name.length + 1 = (name ++ ['\x00']).length := by simp
    rw [hfound]
    simp only [BackendProfile.terminate, hset, hnext]
    rw [parseArgs_spec rfl hzero' (readsAs_driver hzero rfl rfl (List.append_assoc _ _ _))
      (Nat.zero_le _), segments_cut hname, driver, takeWhile_cut hname, List.length_nil,
      Nat.zero_add, List.nil_append]
  · have hnone : strchr (s ++ '\x00' :: stale) 0 ':' = none :=
      strchr_eq_none (p := []) hs hcolon
    rw [hnone]
    dsimp only
    rw [Option.map_some, (readsAs_driver hs rfl rfl rfl).contents, segments_uncut hcolon, driver,
      takeWhile_uncut hcolon]
    rfl

/-- Parsing is exact: the text is split at its first colon, at the commas behind
it, and at the first equals sign of each argument.  What `render` writes is
read back. -/
theorem profile_parse_exact (out : BackendProfile) :
    (∀ s : CString, '\x00' ∉ s →
      (txvcBackendProfileParse s out).map BackendProfile.contents =
        if s.length ≤ 1023 ∧ (segments s).length ≤ 32 then
          some (driver s, (segments s).map keyValue)
        else none) ∧
    ∀ (name : CString) (args : List (CString × CString)), '\x00' ∉ render name args → ':' ∉ name →
      (∀ kv ∈ args, ',' ∉ kv.1 ∧ '=' ∉ kv.1 ∧ ',' ∉ kv.2) → args.length ≤ 32 →
      (render name args).length ≤ 1023 →
      (txvcBackendProfileParse (render name args) out).map BackendProfile.contents =
        some (name, args) := by
  refine ⟨fun s hs => txvcBackendProfileParse_spec hs out, ?_⟩
  intro name args hzero hname hargs hmany hlong
  have hsegments := segments_render hname fun kv hkv => ⟨(hargs kv hkv).1, (hargs kv hkv).2.2⟩
  have hpairs : (args.map fun kv => kv.1 ++ '=' :: kv.2).map keyValue = args := by
    rw [List.map_map]
    refine (List.map_congr_left fun kv hkv => ?_).trans (List.map_id args)
    exact keyValue_pair (hargs kv hkv).2.1 kv.2
  rw [txvcBackendProfileParse_spec hzero, hsegments, List.length_map, if_pos ⟨hlong, hmany⟩, hpairs,
    driver, render, takeWhile_cut hname]

/-- A profile with a repeated key, an empty value and a trailing comma. -/
theorem profile_parse_duplicates (out : BackendProfile) :
    (txvcBackendProfileParse "d:k=v,k=,x,".toList out).map BackendProfile.contents =
      some ("d".toList, [("k".toList, "v".toList), ("k".toList, []), ("x".toList, [])]) ∧
    (txvcBackendProfileParse (render "d".toList [("k".toList, "v=w".toList)]) out).map
      BackendProfile.contents = some ("d".toList, [("k".toList, "v=w".toList)]) := by
  have hexact := profile_parse_exact out
  have hsegments : segments "d:k=v,k=,x,".toList = ["k=v".toList, "k=".toList, "x".toList] := by
    decide
  refine ⟨?_, hexact.2 _ _ (by decide) (by decide) (by decide) (by decide) (by decide)⟩
  rw [hexact.1 _ (by decide), hsegments]
  decide

end TinyXvc
